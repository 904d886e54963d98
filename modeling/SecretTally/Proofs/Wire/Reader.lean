import Mathlib
import SecretTally.Proofs.Number.Decimal
import SecretTally.Proofs.Refusal
import SecretTally.Wire.Reader

/-! What reading accepts, for every step of a reader. An item is read if it has the expected tag and a
number below the bound; a run if all its items are; and a proof if its items fall into a prime and
four runs of one length. -/

namespace SecretTally

variable {expected : Tag} {bound v p : ℕ} {item : Item} {items : List Item} {values : List ℕ}

theorem read_tagged_eq_ok_iff {P : ℕ → Prop} [DecidablePred P] {tagFault wide other : TextFault} :
    (if item.tag ≠ expected then .error tagFault
      else
        match Decimal.parse? item.digits with
        | none => .error wide
        | some v => if P v then .ok v else .error other : Except TextFault ℕ) = .ok v ↔
      item.tag = expected ∧ Decimal.parse? item.digits = some v ∧ P v := by
  split
  · next htag => exact ⟨fun h => (nomatch h), fun h => absurd h.1 htag⟩
  · next htag =>
    rw [not_not] at htag
    split
    · next hparse =>
      rw [hparse]
      exact ⟨fun h => (nomatch h), fun h => (nomatch h.2.1)⟩
    · next w hparse =>
      rw [hparse, Option.some.injEq]
      split
      · next htest =>
        rw [Except.ok.injEq]
        exact ⟨fun h => ⟨htag, h, h ▸ htest⟩, fun h => h.2.1⟩
      · next htest => exact ⟨fun h => (nomatch h), fun h => absurd (h.2.1 ▸ h.2.2) htest⟩

theorem Item.read_eq_ok_iff : item.read expected bound = .ok v ↔
    item.tag = expected ∧ Decimal.parse? item.digits = some v ∧ v < bound := by
  unfold Item.read
  exact read_tagged_eq_ok_iff

theorem readPrime_eq_ok_iff : readPrime item = .ok p ↔
    item.tag = .p ∧ Decimal.parse? item.digits = some p ∧ 5 ≤ p ∧ p % 2 = 1 := by
  unfold readPrime
  exact read_tagged_eq_ok_iff

theorem readRun_eq_ok_iff : readRun expected bound items = .ok values ↔
    List.Forall₂ (fun item v => item.read expected bound = .ok v) items values := by
  induction items generalizing values with
  | nil =>
    rw [readRun, Except.ok.injEq, List.forall₂_nil_left_iff]
    exact eq_comm
  | cons item items ih =>
    rw [readRun, bind_eq_ok]
    constructor
    · rintro ⟨v, hv, hrest⟩
      obtain ⟨vs, hvs, hcons⟩ := bind_eq_ok.mp hrest
      cases hcons
      exact .cons hv (ih.mp hvs)
    · intro h
      cases h with
      | cons hv hvs => exact ⟨_, hv, bind_eq_ok.mpr ⟨_, ih.mpr hvs, rfl⟩⟩

namespace MembershipProof
variable {proof : MembershipProof}

structure ReadFrom (proof : MembershipProof) (first : Item) (y z s c : List Item) : Prop where
  prime : readPrime first = .ok proof.p
  half : proof.q = (proof.p - 1) / 2
  length_z : z.length = y.length
  length_s : s.length = y.length
  length_c : c.length = y.length
  read_y : readRun .y proof.p y = .ok proof.y
  read_z : readRun .z proof.p z = .ok proof.z
  read_s : readRun .s proof.q s = .ok proof.s
  read_c : readRun .c proof.q c = .ok proof.c

theorem splitAt_quarters {α : Type} {n : ℕ} {y z s c : List α} (hy : y.length = n)
    (hz : z.length = n) (hs : s.length = n) (hc : c.length = n) :
    (y ++ z ++ s ++ c).length = 4 * n ∧ (y ++ z ++ s ++ c).take n = y ∧
      ((y ++ z ++ s ++ c).drop n).take n = z ∧ ((y ++ z ++ s ++ c).drop (2 * n)).take n = s ∧
      (y ++ z ++ s ++ c).drop (3 * n) = c := by
  have hyz : (y ++ z).length = 2 * n := by
    rw [List.length_append, hy, hz, two_mul]
  have hyzs : (y ++ z ++ s).length = 3 * n := by
    rw [List.length_append, hyz, hs]
    omega
  refine ⟨?_, ?_, ?_, ?_, List.drop_left' hyzs⟩
  · rw [List.length_append, hyzs, hc]
    omega
  · rw [List.append_assoc, List.append_assoc, List.take_left' hy]
  · rw [List.append_assoc, List.append_assoc, List.drop_left' hy, List.take_left' hz]
  · rw [List.append_assoc, List.drop_left' hyz, List.take_left' hs]

theorem ofItems_of_readFrom {first : Item} {y z s c : List Item}
    (h : proof.ReadFrom first y z s c) : ofItems (first :: (y ++ z ++ s ++ c)) = .ok proof := by
  obtain ⟨hlength, hy, hz, hs, hc⟩ := splitAt_quarters rfl h.length_z h.length_s h.length_c
  have hcount : ¬ (y ++ z ++ s ++ c).length % 4 ≠ 0 := by omega
  have hquarter : (y ++ z ++ s ++ c).length / 4 = y.length := by omega
  rw [ofItems, if_neg hcount]
  simp only [hquarter, hy, hz, hs, hc, bind_eq_ok]
  have hhalf := h.half
  refine ⟨_, h.prime, _, h.read_y, _, h.read_z, _, hhalf ▸ h.read_s, _, hhalf ▸ h.read_c, ?_⟩
  rw [← hhalf]
  rfl

theorem exists_readFrom (h : ofItems items = .ok proof) :
    ∃ first y z s c, items = first :: (y ++ z ++ s ++ c) ∧ proof.ReadFrom first y z s c := by
  unfold ofItems at h
  split at h
  · cases h
  · next first runs =>
    split at h
    · cases h
    · next hcount =>
      simp only [bind_eq_ok] at h
      obtain ⟨p, hp, y, hy, z, hz, s, hs, c, hc, hproof⟩ := h
      cases hproof
      refine ⟨first, _, _, _, _, ?_, hp, rfl, ?_, ?_, ?_, hy, hz, hs, hc⟩
      · rw [← List.take_add, ← two_mul, ← List.take_add, ← Nat.succ_mul, List.take_append_drop]
      all_goals
        simp only [List.length_take, List.length_drop]
        omega

end MembershipProof
end SecretTally
