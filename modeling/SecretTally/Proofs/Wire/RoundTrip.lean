import Mathlib
import SecretTally.Proofs.Proof.Acceptance
import SecretTally.Proofs.Proof.Sum
import SecretTally.Proofs.Text.Utf8
import SecretTally.Proofs.Wire.Item
import SecretTally.Proofs.Wire.Reader

/-! Proofs as text and back. Reading the text of a proof returns that proof exactly if it is well
formed: lists of one length, entries in range, and an order that follows from the prime. Provers and
readers return nothing else, so their proofs survive transport. -/

noncomputable section
namespace SecretTally
open Randomized

section Runs
variable {tag : Tag} {bound : ℕ} {items : List Item} {values : List ℕ}

theorem readRun_numerals {runs : List (List Char)} (hbound : bound ≤ Decimal.limit)
    (hnumeral : ∀ digits ∈ runs, Decimal.IsNumeral digits) (hvalues : runs.map Decimal.value = values)
    (hlt : ∀ v ∈ values, v < bound) : readRun tag bound (runs.map (Item.mk tag)) = .ok values := by
  subst hvalues
  rw [readRun_eq_ok_iff, List.forall₂_map_left_iff, List.forall₂_map_right_iff, List.forall₂_same]
  rw [List.forall_mem_map] at hlt
  intro digits hmem
  have hparse : Decimal.parse? digits = some (Decimal.value digits) :=
    Decimal.parse?_eq_some_iff.mpr ⟨hnumeral digits hmem, rfl, (hlt digits hmem).trans_le hbound⟩
  exact Item.read_eq_ok_iff.mpr ⟨rfl, hparse, hlt digits hmem⟩

theorem length_of_readRun (h : readRun tag bound items = .ok values) :
    values.length = items.length := (readRun_eq_ok_iff.mp h).length_eq.symm

theorem lt_of_readRun (h : readRun tag bound items = .ok values) : ∀ v ∈ values, v < bound := by
  intro v hv
  obtain ⟨item, hread⟩ := exists_of_mem_right (readRun_eq_ok_iff.mp h) hv
  exact (Item.read_eq_ok_iff.mp hread).2.2

end Runs

namespace MembershipProof

/-- All that a proof's text can express, and all that it needs. The limit is the width of a number. -/
structure WellFormed (proof : MembershipProof) : Prop where
  odd : proof.p % 2 = 1
  five_le : 5 ≤ proof.p
  p_lt : proof.p < Decimal.limit
  half : proof.q = (proof.p - 1) / 2
  length_z : proof.z.length = proof.y.length
  length_s : proof.s.length = proof.y.length
  length_c : proof.c.length = proof.y.length
  y_lt : ∀ y ∈ proof.y, y < proof.p
  z_lt : ∀ z ∈ proof.z, z < proof.p
  s_lt : ∀ s ∈ proof.s, s < proof.q
  c_lt : ∀ c ∈ proof.c, c < proof.q

variable {proof : MembershipProof} {items : List Item} {text : List Char}

theorem WellFormed.readFrom {p : List Char} {y z s c : List (List Char)} (h : proof.WellFormed)
    (hnumeral : ∀ digits ∈ p :: (y ++ z ++ s ++ c), Decimal.IsNumeral digits)
    (hp : Decimal.value p = proof.p) (hy : y.map Decimal.value = proof.y)
    (hz : z.map Decimal.value = proof.z) (hs : s.map Decimal.value = proof.s)
    (hc : c.map Decimal.value = proof.c) :
    proof.ReadFrom ⟨.p, p⟩ (y.map (Item.mk .y)) (z.map (Item.mk .z)) (s.map (Item.mk .s))
      (c.map (Item.mk .c)) := by
  simp only [List.forall_mem_cons, List.forall_mem_append] at hnumeral
  obtain ⟨hnp, ⟨⟨hny, hnz⟩, hns⟩, hnc⟩ := hnumeral
  have hlimit : proof.p ≤ Decimal.limit := h.p_lt.le
  have hlimit' : proof.q ≤ Decimal.limit := by
    have hhalf := h.half
    omega
  have hprime : Decimal.parse? p = some proof.p := Decimal.parse?_eq_some_iff.mpr ⟨hnp, hp, h.p_lt⟩
  have hlength : z.length = y.length ∧ s.length = y.length ∧ c.length = y.length := by
    have hlengths := And.intro h.length_z (And.intro h.length_s h.length_c)
    rwa [← hy, ← hz, ← hs, ← hc, List.length_map, List.length_map, List.length_map,
      List.length_map] at hlengths
  refine ⟨readPrime_eq_ok_iff.mpr ⟨rfl, hprime, h.five_le, h.odd⟩, h.half, ?_, ?_, ?_,
    readRun_numerals hlimit hny hy h.y_lt, readRun_numerals hlimit hnz hz h.z_lt,
    readRun_numerals hlimit' hns hs h.s_lt, readRun_numerals hlimit' hnc hc h.c_lt⟩
  · rw [List.length_map, List.length_map, hlength.1]
  · rw [List.length_map, List.length_map, hlength.2.1]
  · rw [List.length_map, List.length_map, hlength.2.2]

theorem map_value_print (values : List ℕ) :
    (values.map Decimal.print).map Decimal.value = values := by
  rw [List.map_map]
  exact List.map_id'' Decimal.value_print values

theorem ofItems_items (h : proof.WellFormed) : ofItems proof.items = .ok proof := by
  have hread := h.readFrom (p := Decimal.print proof.p) ?_ (Decimal.value_print _) (map_value_print _)
    (map_value_print _) (map_value_print _) (map_value_print _)
  · have hitems := ofItems_of_readFrom hread
    simp only [List.map_map] at hitems
    exact hitems
  · simp only [List.forall_mem_cons, List.forall_mem_append, List.forall_mem_map]
    exact ⟨Decimal.isNumeral_print _, ⟨⟨fun _ _ => Decimal.isNumeral_print _, fun _ _ =>
      Decimal.isNumeral_print _⟩, fun _ _ => Decimal.isNumeral_print _⟩,
      fun _ _ => Decimal.isNumeral_print _⟩

theorem parse_print (h : proof.WellFormed) : parse proof.print = .ok proof :=
  bind_eq_ok.mpr ⟨proof.items, split_print proof, ofItems_items h⟩

theorem parseBytes_print (h : proof.WellFormed) :
    parseBytes (proof.print.flatMap String.utf8EncodeChar) = .ok proof := by
  rw [parseBytes, Utf8.decode_utf8 proof.ascii_print]
  exact parse_print h

theorem wellFormed_of_parse (h : parse text = .ok proof) : proof.WellFormed := by
  obtain ⟨items, -, hitems⟩ := bind_eq_ok.mp h
  obtain ⟨first, y, z, s, c, -, hread⟩ := exists_readFrom hitems
  obtain ⟨-, hparse, hfive, hodd⟩ := readPrime_eq_ok_iff.mp hread.prime
  have hy := length_of_readRun hread.read_y
  refine ⟨hodd, hfive, (Decimal.parse?_eq_some_iff.mp hparse).2.2, hread.half, ?_, ?_, ?_,
    lt_of_readRun hread.read_y, lt_of_readRun hread.read_z, lt_of_readRun hread.read_s,
    lt_of_readRun hread.read_c⟩
  · rw [length_of_readRun hread.read_z, hy, hread.length_z]
  · rw [length_of_readRun hread.read_s, hy, hread.length_s]
  · rw [length_of_readRun hread.read_c, hy, hread.length_c]

theorem parse_print_iff : parse proof.print = .ok proof ↔ proof.WellFormed :=
  ⟨wellFormed_of_parse, parse_print⟩

end MembershipProof

theorem PublicKey.five_le_p (key : PublicKey) : 5 ≤ key.p.value := by
  have hhalf := key.half
  have hq := key.q.three_le
  omega

theorem MembershipProof.wellFormed_of_check {proof : MembershipProof} {digest : Digest}
    {key : PublicKey} {pair : Pair} {domain : Domain} (hkey : key.p.value < Decimal.limit)
    (h : proof.check digest key pair domain = .ok true) : proof.WellFormed := by
  obtain ⟨hmatch, -, hholds⟩ := check_eq_ok_true_iff.mp h
  have hshape := hholds.shape
  simp only [matchesKey, Bool.and_eq_true, decide_eq_true_eq] at hmatch
  obtain ⟨hp, hq⟩ := hmatch
  refine ⟨hp ▸ key.p.odd, hp ▸ key.five_le_p, hp ▸ hkey, ?_, ?_, ?_, hshape.length_y.symm,
    fun y hy => hp ▸ (hshape.y_range y hy).2, fun z hz => hp ▸ (hshape.z_range z hz).2,
    hq ▸ hshape.s_lt, hq ▸ hshape.c_lt⟩
  · rw [hp, hq, key.half]
  · rw [hshape.length_z, hshape.length_y]
  · rw [hshape.length_s, hshape.length_y]

variable {key : PublicKey} {pair : Pair} {t r : Exponent} {a : Answer} {d value : ℕ}

theorem wellFormed_closeProof (digest : Digest) (hkey : key.p.value < Decimal.limit)
    {branches : List Branch} (h : ∀ b ∈ branches, b.InGroup key) :
    (closeProof digest key pair t r branches).WellFormed := by
  refine ⟨key.p.odd, key.five_le_p, hkey, key.half, ?_, ?_, ?_, closeProof_y_lt h pair,
    closeProof_z_lt h pair, closeProof_s_lt h pair, closeProof_c_lt h pair⟩ <;>
  simp [closeProof]

section Provers
variable {σ : Type} [Source σ] (digest : Digest) (hkey : key.p.value < Decimal.limit)

include hkey in
theorem yields_prove (pair : Pair) (r : Exponent) (value : ℕ) (domain : Domain) :
    Yields (prove digest key pair r value domain : Randomized σ Refusal MembershipProof)
      MembershipProof.WellFormed := by
  unfold prove
  split
  · exact yields_throw _
  · split
    · exact yields_throw _
    · refine (returns_random key.q).yields.bind fun t _ => ?_
      refine (returns_answers key.q domain.size).yields.bind fun answers hanswers => ?_
      exact yields_pure (wellFormed_closeProof digest hkey
        (forall_mem_zipWith fun d a ha => inGroup_freshBranch (hanswers.2 a ha)))

include hkey in
theorem yields_sumProof (lhs rhs : Summand) (merged : Domain) :
    Yields (sumProof digest key lhs rhs merged : Randomized σ SumFailure (Pair × MembershipProof))
      fun out => out.2.WellFormed := by
  unfold sumProof
  split
  · exact yields_throw _
  · refine (lhs.yields_stretch merged).bind fun left hleft => ?_
    refine (rhs.yields_stretch merged).bind fun right _ => ?_
    refine (returns_random key.q).yields.bind fun t _ => ?_
    change Yields (if (sumBranches key lhs rhs merged t left right).any Branch.isOpen then _ else _) _
    split
    · refine yields_pure (wellFormed_closeProof digest hkey (forall_mem_zipWith fun d answers h => ?_))
      exact inGroup_sumBranch (hleft.2 _ (List.of_mem_zip h).1)
    · exact yields_throw _

end Provers

/-- The proofs that provers and readers return, whatever they are given. -/
inductive Issued : MembershipProof → Prop
  | proven {σ : Type} [Source σ] {s : σ} {digest : Digest} {key : PublicKey} {pair : Pair}
      {r : Exponent} {value : ℕ} {domain : Domain} {proof : MembershipProof}
      (hkey : key.p.value < Decimal.limit)
      (h : (prove digest key pair r value domain s).1 = .ok proof) : Issued proof
  | summed {σ : Type} [Source σ] {s : σ} {digest : Digest} {key : PublicKey} {lhs rhs : Summand}
      {merged : Domain} {pair : Pair} {proof : MembershipProof}
      (hkey : key.p.value < Decimal.limit)
      (h : (sumProof digest key lhs rhs merged s).1 = .ok (pair, proof)) : Issued proof
  | parsed {text : List Char} {proof : MembershipProof} (h : MembershipProof.parse text = .ok proof) :
      Issued proof

theorem Issued.wellFormed {proof : MembershipProof} (h : Issued proof) : proof.WellFormed := by
  cases h with
  | proven hkey h => exact yields_prove _ hkey _ _ _ _ _ _ h
  | summed hkey h => exact yields_sumProof _ hkey _ _ _ _ _ h
  | parsed h => exact MembershipProof.wellFormed_of_parse h

/-- Well-formed proofs, and no others, are read back from their text; all proofs that are returned
are among them, so that sending one changes nothing about it. -/
theorem issued_survives_transport :
    (∀ proof : MembershipProof,
      MembershipProof.parse proof.print = .ok proof ↔ proof.WellFormed) ∧
    ∀ proof : MembershipProof, Issued proof → proof.WellFormed ∧
      MembershipProof.parse proof.print = .ok proof ∧
      MembershipProof.parseBytes (proof.print.flatMap String.utf8EncodeChar) = .ok proof ∧
      ∀ received : MembershipProof,
        MembershipProof.parseBytes (proof.print.flatMap String.utf8EncodeChar) = .ok received →
          ∀ (digest : Digest) (key : PublicKey) (pair : Pair) (domain : Domain),
            received.check digest key pair domain = proof.check digest key pair domain := by
  refine ⟨fun proof => MembershipProof.parse_print_iff, fun proof h => ?_⟩
  have hformed : proof.WellFormed := h.wellFormed
  have hbytes := MembershipProof.parseBytes_print hformed
  refine ⟨hformed, MembershipProof.parse_print hformed, hbytes, fun received hreceived => ?_⟩
  cases hbytes.symm.trans hreceived
  exact fun _ _ _ _ => rfl

theorem issued_survives_transport_nineteen :
    let q := PublicKey.small.q
    let ragged : MembershipProof := ⟨23, 11, [], [9], [15, 40], [7, 30]⟩
    let lhs : Summand := ⟨Pair.encrypt .small 3 (.ofNat 2 q), ragged, .ofNat 2 q,
      ⟨[3, 8], by decide, by decide⟩⟩
    let rhs : Summand := ⟨Pair.encrypt .small 16 (.ofNat 5 q), ⟨23, 11, [], [], [2], [100]⟩,
      .ofNat 5 q, ⟨[1], by decide, by decide⟩⟩
    let merged : Domain := ⟨[8, 12, 19], by decide, by decide⟩
    let proof : MembershipProof := ⟨23, 11, [12, 1, 12], [18, 12, 18], [8, 5, 8], [2, 7, 2]⟩
    (sumProof standardDigest .small lhs rhs merged
        (Tape.mk [3, 1, 4, 1, 5, 9, 2, 6, 5, 3, 5])).1 = .ok (lhs.pair * rhs.pair, proof) ∧
      MembershipProof.parse "p23y12y1y12z18z12z18s8s5s8c2c7c2".toList = .ok proof ∧
      MembershipProof.parse ragged.print ≠ .ok ragged := by
  intro q ragged lhs rhs merged proof
  have hrun : (sumProof standardDigest .small lhs rhs merged
      (Tape.mk [3, 1, 4, 1, 5, 9, 2, 6, 5, 3, 5])).1 = .ok (lhs.pair * rhs.pair, proof) := by
    decide +kernel
  have hkey : PublicKey.small.p.value < Decimal.limit := by decide +kernel
  have htext : proof.print = "p23y12y1y12z18z12z18s8s5s8c2c7c2".toList := by decide +kernel
  obtain ⟨hexact, hissued⟩ := issued_survives_transport
  refine ⟨hrun, ?_, fun hread => ?_⟩
  · rw [← htext]
    exact (hissued proof (.summed hkey hrun)).2.1
  · have hlength := ((hexact ragged).mp hread).length_z
    cases hlength

end SecretTally

end
