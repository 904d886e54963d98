import Mathlib
import SecretTally.Proofs.Number.Decimal
import SecretTally.Proofs.Refusal
import SecretTally.Wire.Printer

/-! Splitting what was joined. A run of digits ends where the next tag begins, so the joined text of
items splits into the same items; and the text of a proof is the joined text of its items. -/

namespace SecretTally

namespace Item

structure Proper (item : Item) : Prop where
  digits_ne_nil : item.digits ≠ []
  isDigit : ∀ c ∈ item.digits, c.isDigit = true

variable {item : Item} {items : List Item}

theorem Proper.ascii_text (h : item.Proper) : ∀ c ∈ item.text, c.toNat < 128 := by
  intro c hc
  rcases List.mem_cons.mp hc with rfl | hdigit
  · cases item.tag <;> decide
  · exact (Char.isDigit_iff_toNat.mp (h.isDigit c hdigit)).2.trans_lt (by decide)

theorem ascii_flatMap_text (h : ∀ item ∈ items, item.Proper) :
    ∀ c ∈ items.flatMap text, c.toNat < 128 := by
  intro c hc
  obtain ⟨item, hitem, hmem⟩ := List.mem_flatMap.mp hc
  exact (h item hitem).ascii_text c hmem

theorem span_digits (h : item.Proper) (items : List Item) :
    (item.digits ++ items.flatMap text).takeWhile Char.isDigit = item.digits ∧
      (item.digits ++ items.flatMap text).dropWhile Char.isDigit = items.flatMap text := by
  rw [List.takeWhile_append_of_pos h.isDigit, List.dropWhile_append_of_pos h.isDigit]
  cases items with
  | nil => exact ⟨List.append_nil _, rfl⟩
  | cons next items =>
    rw [List.flatMap_cons, text, List.cons_append,
      List.takeWhile_cons_of_neg (by simp [next.tag.isDigit_letter]),
      List.dropWhile_cons_of_neg (by simp [next.tag.isDigit_letter])]
    exact ⟨List.append_nil _, rfl⟩

theorem splitFrom_cons (h : item.Proper) (items : List Item) (offset : ℕ) :
    splitFrom offset ((item :: items).flatMap text) =
      (item :: ·) <$> splitFrom (offset + 1 + item.digits.length) (items.flatMap text) := by
  obtain ⟨htake, hdrop⟩ := span_digits h items
  rw [List.flatMap_cons, text, List.cons_append, splitFrom]
  simp only [Tag.ofLetter?_letter, htake, hdrop, if_neg h.digits_ne_nil]

theorem splitFrom_flatMap_text (h : ∀ item ∈ items, item.Proper) (offset : ℕ) :
    splitFrom offset (items.flatMap text) = .ok items := by
  induction items generalizing offset with
  | nil => rw [List.flatMap_nil, splitFrom]
  | cons item items ih =>
    rw [List.forall_mem_cons] at h
    rw [splitFrom_cons h.1, ih h.2]
    rfl

theorem proper_iff : item.Proper ↔ Decimal.IsNumeral item.digits :=
  ⟨fun h => ⟨h.digits_ne_nil, h.isDigit⟩, fun h => ⟨h.ne_nil, h.isDigit⟩⟩

theorem of_splitFrom {offset : ℕ} {chars : List Char} (h : splitFrom offset chars = .ok items) :
    (∀ item ∈ items, item.Proper) ∧ items.flatMap text = chars := by
  fun_induction splitFrom offset chars generalizing items with
  | case1 offset =>
    cases h
    exact ⟨fun _ hitem => (nomatch hitem), rfl⟩
  | case2 offset ch rest hnone => cases h
  | case3 offset ch rest tag htag hnil => cases h
  | case4 offset ch rest tag htag digits hne =>
    rename_i ih
    obtain ⟨tail, htail, rfl⟩ := map_eq_ok.mp h
    obtain ⟨hproper, htext⟩ := ih htail
    refine ⟨List.forall_mem_cons.mpr ⟨⟨hne, fun c hc => ?_⟩, hproper⟩, ?_⟩
    · exact List.mem_takeWhile_imp hc
    · rw [List.flatMap_cons, htext, text, Tag.letter_of_ofLetter? htag, List.cons_append]
      exact congrArg (ch :: ·) List.takeWhile_append_dropWhile

theorem split_eq_ok_iff {chars : List Char} :
    split chars = .ok items ↔ (∀ item ∈ items, item.Proper) ∧ items.flatMap text = chars := by
  constructor
  · exact of_splitFrom
  · rintro ⟨hproper, rfl⟩
    exact splitFrom_flatMap_text hproper 0

def ofNat (tag : Tag) (v : ℕ) : Item := ⟨tag, Decimal.print v⟩

theorem proper_ofNat (tag : Tag) (v : ℕ) : (ofNat tag v).Proper :=
  ⟨Decimal.print_ne_nil v, fun _ => Decimal.isDigit_of_mem_print⟩

end Item

theorem printRun_eq (tag : Tag) (values : List ℕ) :
    printRun tag values = (values.map (Item.ofNat tag)).flatMap Item.text := by
  rw [List.flatMap_map]
  rfl

namespace MembershipProof

def items (proof : MembershipProof) : List Item :=
  .ofNat .p proof.p :: (proof.y.map (Item.ofNat .y) ++ proof.z.map (Item.ofNat .z)
    ++ proof.s.map (Item.ofNat .s) ++ proof.c.map (Item.ofNat .c))

theorem print_eq (proof : MembershipProof) : proof.print = proof.items.flatMap Item.text := by
  simp only [print, items, printRun_eq, List.flatMap_cons, List.flatMap_append, List.append_assoc]
  rfl

theorem proper_items (proof : MembershipProof) : ∀ item ∈ proof.items, item.Proper := by
  intro item hitem
  have hrun : ∃ tag v, item = Item.ofNat tag v := by
    simp only [items, List.mem_cons, List.mem_append, List.mem_map] at hitem
    rcases hitem with rfl | ((⟨v, -, rfl⟩ | ⟨v, -, rfl⟩) | ⟨v, -, rfl⟩) | ⟨v, -, rfl⟩ <;>
      exact ⟨_, _, rfl⟩
  obtain ⟨tag, v, rfl⟩ := hrun
  exact Item.proper_ofNat tag v

theorem ascii_print (proof : MembershipProof) : ∀ c ∈ proof.print, c.toNat < 128 := by
  rw [print_eq]
  exact Item.ascii_flatMap_text proof.proper_items

theorem split_print (proof : MembershipProof) : Item.split proof.print = .ok proof.items := by
  rw [Item.split, print_eq]
  exact Item.splitFrom_flatMap_text proof.proper_items 0

end MembershipProof
end SecretTally
