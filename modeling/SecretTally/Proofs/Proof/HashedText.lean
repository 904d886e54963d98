import Mathlib
import SecretTally.Proofs.Number.Decimal
import SecretTally.Proofs.Proof.Subgroup

/-! What the hashed text tells about the elements in it. Their decimals stand side by side without
separators, so the text determines them only together with the number of digits that each one has.
Where two lists with one text differ first, a digit has moved from one element into its neighbour;
primes above eleven leave room for that. -/

noncomputable section
namespace SecretTally

structure PublicKey.InGroup (key : PublicKey) (x : Element) : Prop where
  modulus_eq : x.modulus = key.p
  pos : 0 < x.value

instance (key : PublicKey) (x : Element) : Decidable (key.InGroup x) :=
  decidable_of_iff (x.modulus = key.p ∧ 0 < x.value) ⟨fun h => ⟨h.1, h.2⟩, fun h => ⟨h.1, h.2⟩⟩

def Element.width (x : Element) : ℕ := x.text.length

def hashedElements (pair : Pair) (commitments : List Commitment) : List Element :=
  pair.pad :: pair.data :: commitments.flatMap fun k => [k.y, k.z]

/-- The lists agree up to a place where the decimal of one element begins the other's. -/
def ShiftsDigit (xs ys : List Element) : Prop :=
  ∃ before x y after after', xs = before ++ x :: after ∧ ys = before ++ y :: after' ∧ x ≠ y ∧
    (x.text <+: y.text ∨ y.text <+: x.text)

structure SharesText (key : PublicKey) (n : ℕ) (pair pair' : Pair) (ks ks' : List Commitment) :
    Prop where
  length_left : ks.length = n
  length_right : ks'.length = n
  inGroup_left : ∀ x ∈ hashedElements pair ks, key.InGroup x
  inGroup_right : ∀ x ∈ hashedElements pair' ks', key.InGroup x
  text_eq : commitmentText key.g key.h pair ks = commitmentText key.g key.h pair' ks'

variable {key : PublicKey} {x y : Element} {xs ys : List Element} {pair pair' : Pair}
  {ks ks' : List Commitment} {n : ℕ}

theorem Element.text_inj (h : x.modulus = y.modulus) : x.text = y.text ↔ x = y := by
  refine ⟨fun htext => Element.ext h ?_, fun heq => heq ▸ rfl⟩
  have hvalue := congrArg Decimal.value htext
  rwa [text, text, Decimal.value_print, Decimal.value_print] at hvalue

theorem commitmentText_eq_flatMap (g h : Element) (pair : Pair) (ks : List Commitment) :
    commitmentText g h pair ks =
      g.text ++ h.text ++ (hashedElements pair ks).flatMap Element.text := by
  have htext : (fun k : Commitment => k.y.text ++ k.z.text) = Commitment.text := rfl
  simp [commitmentText, hashedElements, List.flatMap_assoc, htext]

theorem length_hashedElements (pair : Pair) (ks : List Commitment) :
    (hashedElements pair ks).length = 2 + 2 * ks.length := by
  induction ks with
  | nil => rfl
  | cons k ks ih =>
    simp only [hashedElements, List.flatMap_cons, List.length_cons, List.length_append] at ih ⊢
    simp only [List.length_nil]
    omega

theorem hashedElements_inj :
    hashedElements pair ks = hashedElements pair' ks' ↔ pair = pair' ∧ ks = ks' := by
  refine ⟨fun h => ?_, fun h => h.1 ▸ h.2 ▸ rfl⟩
  obtain ⟨pad, data⟩ := pair
  obtain ⟨pad', data'⟩ := pair'
  rw [hashedElements, hashedElements, List.cons.injEq, List.cons.injEq] at h
  obtain ⟨rfl, rfl, hks⟩ := h
  refine ⟨rfl, ?_⟩
  induction ks generalizing ks' with
  | nil =>
    obtain _ | ⟨k', ks'⟩ := ks'
    · rfl
    · cases hks
  | cons k ks ih =>
    obtain _ | ⟨k', ks'⟩ := ks'
    · cases hks
    · obtain ⟨y, z⟩ := k
      obtain ⟨y', z'⟩ := k'
      simp only [List.flatMap_cons, List.cons_append, List.nil_append, List.cons.injEq] at hks
      obtain ⟨rfl, rfl, hrest⟩ := hks
      rw [ih hrest]

theorem exists_first_difference (hlength : xs.length = ys.length) (hne : xs ≠ ys)
    (htext : xs.flatMap Element.text = ys.flatMap Element.text) :
    ∃ before x y after after', xs = before ++ x :: after ∧ ys = before ++ y :: after' ∧ x ≠ y ∧
      x.text ++ after.flatMap Element.text = y.text ++ after'.flatMap Element.text := by
  induction xs generalizing ys with
  | nil => exact absurd (List.length_eq_zero_iff.mp hlength.symm).symm hne
  | cons x xs ih =>
    obtain _ | ⟨y, ys⟩ := ys
    · cases hlength
    · rw [List.flatMap_cons, List.flatMap_cons] at htext
      by_cases hxy : x = y
      · subst hxy
        obtain ⟨before, u, v, after, after', hxs, hys, huv, hrest⟩ := ih (Nat.succ.inj hlength)
          (fun heq => hne (heq ▸ rfl)) (List.append_cancel_left htext)
        exact ⟨x :: before, u, v, after, after', hxs ▸ rfl, hys ▸ rfl, huv, hrest⟩
      · exact ⟨[], x, y, xs, ys, rfl, rfl, hxy, htext⟩

theorem ShiftsDigit.width_ne (h : ShiftsDigit xs ys) (hxs : ∀ x ∈ xs, x.modulus = key.p)
    (hys : ∀ y ∈ ys, y.modulus = key.p) : xs.map Element.width ≠ ys.map Element.width := by
  obtain ⟨before, x, y, after, after', rfl, rfl, hne, hbegins⟩ := h
  intro hwidths
  rw [List.map_append, List.map_append, List.map_cons, List.map_cons] at hwidths
  have hwidth : x.width = y.width := (List.cons.inj (List.append_cancel_left hwidths)).1
  have hmodulus : x.modulus = y.modulus :=
    (hxs x (by simp)).trans (hys y (by simp)).symm
  rcases hbegins with hbegins | hbegins
  · exact hne ((Element.text_inj hmodulus).mp (hbegins.eq_of_length hwidth))
  · exact hne ((Element.text_inj hmodulus).mp (hbegins.eq_of_length hwidth.symm).symm)

namespace SharesText
variable (h : SharesText key n pair pair' ks ks')
include h

theorem exists_difference (hne : ¬ (pair = pair' ∧ ks = ks')) : ∃ before x y after after',
    hashedElements pair ks = before ++ x :: after ∧
      hashedElements pair' ks' = before ++ y :: after' ∧ x ≠ y ∧
      x.text ++ after.flatMap Element.text = y.text ++ after'.flatMap Element.text := by
  have htext := h.text_eq
  rw [commitmentText_eq_flatMap, commitmentText_eq_flatMap] at htext
  refine exists_first_difference ?_ (mt hashedElements_inj.mp hne) (List.append_cancel_left htext)
  rw [length_hashedElements, length_hashedElements, h.length_left, h.length_right]

theorem shiftsDigit (hne : ¬ (pair = pair' ∧ ks = ks')) :
    ShiftsDigit (hashedElements pair ks) (hashedElements pair' ks') := by
  obtain ⟨before, x, y, after, after', hxs, hys, hxy, htext⟩ := h.exists_difference hne
  refine ⟨before, x, y, after, after', hxs, hys, hxy, ?_⟩
  exact List.prefix_or_prefix_of_prefix (List.prefix_append x.text _)
    (htext ▸ List.prefix_append y.text _)

theorem eq_iff_width_eq : (pair = pair' ∧ ks = ks') ↔
    (hashedElements pair ks).map Element.width = (hashedElements pair' ks').map Element.width := by
  refine ⟨fun heq => by rw [heq.1, heq.2], fun hwidths => by_contra fun hne => ?_⟩
  exact (h.shiftsDigit hne).width_ne (fun x hx => (h.inGroup_left x hx).modulus_eq)
    (fun y hy => (h.inGroup_right y hy).modulus_eq) hwidths

end SharesText

theorem zero_not_head_of_pos (hxs : ∀ x ∈ xs, 0 < x.value) (rest : List Char) :
    xs.flatMap Element.text ≠ '0' :: rest := by
  cases xs with
  | nil => simp
  | cons x xs =>
    intro htext
    obtain ⟨c, digits, hdigits⟩ := List.exists_cons_of_ne_nil (Decimal.print_ne_nil x.value)
    rw [List.flatMap_cons, Element.text, hdigits, List.cons_append, List.cons.injEq] at htext
    obtain ⟨rfl, -⟩ := htext
    exact Decimal.print_ne_zero_cons (hxs x List.mem_cons_self) digits hdigits

theorem eq_one_of_print_begins : ∀ v < 11, ∀ w < 11,
    0 < v ∧ v ≠ w ∧ Decimal.print v <+: Decimal.print w → v = 1 ∧ w = 10 := by
  decide

theorem not_begins_of_le_eleven {after after' : List Element} (hsmall : key.p.value ≤ 11)
    (hx : key.InGroup x) (hy : key.InGroup y) (hafter : ∀ x ∈ after, key.InGroup x) (hne : x ≠ y)
    (htext : x.text ++ after.flatMap Element.text = y.text ++ after'.flatMap Element.text) :
    ¬ x.text <+: y.text := by
  intro hbegins
  have hxlt : x.value < 11 := x.value_lt.trans_le (hx.modulus_eq ▸ hsmall)
  have hylt : y.value < 11 := y.value_lt.trans_le (hy.modulus_eq ▸ hsmall)
  have hvalue : x.value ≠ y.value :=
    fun heq => hne (Element.ext (hx.modulus_eq.trans hy.modulus_eq.symm) heq)
  obtain ⟨hone, hten⟩ := eq_one_of_print_begins _ hxlt _ hylt ⟨hx.pos, hvalue, hbegins⟩
  have hxtext : x.text = ['1'] := by rw [Element.text, hone]; decide
  have hytext : y.text = ['1', '0'] := by rw [Element.text, hten]; decide
  rw [hxtext, hytext, List.singleton_append, List.cons_append, List.cons.injEq] at htext
  exact zero_not_head_of_pos (fun x hx => (hafter x hx).pos) _ htext.2

theorem SharesText.eq_of_le_eleven (h : SharesText key n pair pair' ks ks')
    (hsmall : key.p.value ≤ 11) : pair = pair' ∧ ks = ks' := by
  by_contra hne
  obtain ⟨before, x, y, after, after', hxs, hys, hxy, htext⟩ := h.exists_difference hne
  have hleft := h.inGroup_left
  have hright := h.inGroup_right
  rw [hxs, List.forall_mem_append, List.forall_mem_cons] at hleft
  rw [hys, List.forall_mem_append, List.forall_mem_cons] at hright
  obtain ⟨-, hx, hafter⟩ := hleft
  obtain ⟨-, hy, hafter'⟩ := hright
  rcases List.prefix_or_prefix_of_prefix (List.prefix_append x.text _)
    (htext ▸ List.prefix_append y.text _) with hbegins | hbegins
  · exact not_begins_of_le_eleven hsmall hx hy hafter hxy htext hbegins
  · exact not_begins_of_le_eleven hsmall hy hx hafter' hxy.symm htext.symm hbegins

theorem exists_sharesText (hlarge : 11 < key.p.value) (n : ℕ) :
    ∃ pair pair' ks ks', SharesText key n pair pair' ks ks' ∧ pair ≠ pair' := by
  let one : Element := ⟨key.p, 1, Nat.lt_trans (by decide) hlarge⟩
  let eleven : Element := ⟨key.p, 11, hlarge⟩
  have hone : key.InGroup one := ⟨rfl, Nat.one_pos⟩
  have heleven : key.InGroup eleven := ⟨rfl, Nat.succ_pos _⟩
  have hks : ∀ x ∈ (List.replicate n (Commitment.mk one one)).flatMap fun k => [k.y, k.z],
      key.InGroup x := by
    intro x hx
    obtain ⟨k, hk, hmem⟩ := List.mem_flatMap.mp hx
    rw [List.eq_of_mem_replicate hk] at hmem
    rcases List.mem_pair.mp hmem with rfl | rfl <;> exact hone
  refine ⟨⟨one, eleven⟩, ⟨eleven, one⟩, List.replicate n ⟨one, one⟩, List.replicate n ⟨one, one⟩,
    ⟨List.length_replicate, List.length_replicate, ?_, ?_, ?_⟩, ?_⟩
  · exact List.forall_mem_cons.mpr ⟨hone, List.forall_mem_cons.mpr ⟨heleven, hks⟩⟩
  · exact List.forall_mem_cons.mpr ⟨heleven, List.forall_mem_cons.mpr ⟨hone, hks⟩⟩
  · have htext : one.text ++ eleven.text = eleven.text ++ one.text := by
      change Decimal.print 1 ++ Decimal.print 11 = Decimal.print 11 ++ Decimal.print 1
      decide
    simp only [commitmentText_eq_flatMap, hashedElements, List.flatMap_cons, ← List.append_assoc]
    rw [List.append_assoc _ one.text, List.append_assoc _ eleven.text, htext]
  · exact fun heq => absurd (congrArg (fun pair : Pair => pair.pad.value) heq) (by decide : 1 ≠ 11)

/-- Pairs and commitments with one text differ in the width of a number, and up to the prime eleven
there are none. -/
theorem commitmentText_binds (key : PublicKey) (n : ℕ) :
    (∀ pair pair' ks ks', SharesText key n pair pair' ks ks' →
      ((pair = pair' ∧ ks = ks') ↔
        (hashedElements pair ks).map Element.width =
          (hashedElements pair' ks').map Element.width) ∧
      (¬ (pair = pair' ∧ ks = ks') →
        ShiftsDigit (hashedElements pair ks) (hashedElements pair' ks'))) ∧
    (key.p.value ≤ 11 ↔
      ∀ pair pair' ks ks', SharesText key n pair pair' ks ks' → pair = pair' ∧ ks = ks') := by
  refine ⟨fun pair pair' ks ks' h => ⟨h.eq_iff_width_eq, h.shiftsDigit⟩,
    fun hsmall pair pair' ks ks' h => h.eq_of_le_eleven hsmall, fun hbinds => ?_⟩
  by_contra hlarge
  obtain ⟨pair, pair', ks, ks', h, hne⟩ := exists_sharesText (not_le.mp hlarge) n
  exact hne (hbinds pair pair' ks ks' h).1

theorem commitmentText_binds_eighteen :
    let key := PublicKey.small
    let element (v : Fin 23) : Element := ⟨key.p, v, v.isLt⟩
    let pair : Pair := ⟨element 1, element 2⟩
    let pair' : Pair := ⟨element 12, element 1⟩
    let ks : List Commitment := [⟨element 18, element 3⟩]
    let ks' : List Commitment := [⟨element 8, element 3⟩]
    SharesText key 1 pair pair' ks ks' ∧ ¬ (pair = pair' ∧ ks = ks') ∧
      (hashedElements pair ks).map Element.width ≠ (hashedElements pair' ks').map Element.width ∧
      ShiftsDigit (hashedElements pair ks) (hashedElements pair' ks') := by
  intro key element pair pair' ks ks'
  have h : SharesText key 1 pair pair' ks ks' :=
    ⟨rfl, rfl, by decide, by decide, by decide⟩
  have hne : ¬ (pair = pair' ∧ ks = ks') := by decide
  obtain ⟨hiff, hshifts⟩ := (commitmentText_binds key 1).1 pair pair' ks ks' h
  exact ⟨h, hne, fun hwidths => hne (hiff.mpr hwidths), hshifts hne⟩

/-- In the subgroup as well: one text, hence one challenge, for two pairs and their commitments. -/
theorem commitmentText_shared :
    let key := PublicKey.small
    let element (v : Fin 23) : Element := ⟨key.p, v, v.isLt⟩
    let pair : Pair := ⟨element 1, element 2⟩
    let pair' : Pair := ⟨element 12, element 1⟩
    let ks : List Commitment := [⟨element 18, element 3⟩]
    let ks' : List Commitment := [⟨element 8, element 3⟩]
    key.p.value.Prime ∧ key.q.value.Prime ∧ SharesText key 1 pair pair' ks ks' ∧
      (∀ x ∈ hashedElements pair ks ++ hashedElements pair' ks', key.InSubgroup x.value) ∧
      commitmentText key.g key.h pair ks = "41212183".toList ∧
      key.challenge standardDigest pair ks = key.challenge standardDigest pair' ks' ∧
      pair.pad ≠ pair'.pad ∧ pair.data ≠ pair'.data ∧ ks ≠ ks' := by
  intro key element pair pair' ks ks'
  have h : SharesText key 1 pair pair' ks ks' :=
    ⟨rfl, rfl, by decide, by decide, by decide⟩
  refine ⟨by decide, by decide, h, by decide, by decide, ?_, by decide, by decide, by decide⟩
  rw [PublicKey.challenge, PublicKey.challenge, h.text_eq]

end SecretTally

end
