import Mathlib
import SecretTally.Proofs.Text.Utf8
import SecretTally.Wire.Position

/-! Reading by positions fails nowhere: every cut and every difference exists, whatever the bytes are,
and what is read is the same. -/

namespace SecretTally.Position
open Checked

variable {text : List Char} {items : List Item}

theorem slice?_run {α : Type} {start stop n : ℕ} {entries : List α} (hn : stop = start + n)
    (hstop : stop ≤ entries.length) :
    slice? start stop entries = some ((entries.drop start).take n) := by
  rw [slice?_eq (by omega) hstop, hn, List.drop_take, Nat.add_sub_cancel_left]

theorem byteLength_append (front back : List Char) :
    byteLength (front ++ back) = byteLength front + byteLength back := by
  induction front with
  | nil => exact (Nat.zero_add _).symm
  | cons c front ih => rw [List.cons_append, byteLength, byteLength, ih, Nat.add_assoc]

theorem cut?_append (front back : List Char) :
    cut? (byteLength front) (front ++ back) = some (front, back) := by
  induction front with
  | nil =>
    change cut? 0 back = _
    rw [cut?]
  | cons c front ih =>
    have hpos := c.utf8Size_pos
    obtain ⟨n, hn⟩ : ∃ n, c.utf8Size + byteLength front = n + 1 :=
      Nat.exists_eq_succ_of_ne_zero (by omega)
    have hrest : n + 1 - c.utf8Size = byteLength front := by omega
    rw [byteLength, hn, List.cons_append, cut?, if_pos (by omega), hrest, ih]
    rfl

theorem utf8Size_letter (tag : Tag) : tag.letter.utf8Size = 1 := by
  cases tag <;> rfl

theorem digitsEnd_eq (text : List Char) :
    digitsEnd text = (text.takeWhile Char.isDigit).length := by
  induction text with
  | nil => rfl
  | cons c rest ih =>
    rw [digitsEnd, List.takeWhile_cons]
    split
    · next hc => rw [Utf8.utf8Size_of_isDigit hc, ih, List.length_cons, Nat.add_comm]
    · rfl

theorem byteLength_takeWhile (text : List Char) :
    byteLength (text.takeWhile Char.isDigit) = (text.takeWhile Char.isDigit).length := by
  induction text with
  | nil => rfl
  | cons c rest ih =>
    rw [List.takeWhile_cons]
    split
    · next hc => rw [byteLength, Utf8.utf8Size_of_isDigit hc, ih, List.length_cons, Nat.add_comm]
    · rfl

theorem byteLength_eq_add_dropWhile (text : List Char) : byteLength text =
    (text.takeWhile Char.isDigit).length + byteLength (text.dropWhile Char.isDigit) := by
  rw [← byteLength_takeWhile, ← byteLength_append, List.takeWhile_append_dropWhile]

theorem cut?_item {tag : Tag} {ch : Char} (htag : Tag.ofLetter? ch = some tag) (rest : List Char) :
    cut? 1 (ch :: rest) = some ([ch], rest) ∧
      cut? (digitsEnd rest) rest =
        some (rest.takeWhile Char.isDigit, rest.dropWhile Char.isDigit) := by
  have hsize : byteLength [ch] = 1 := by
    rw [byteLength, ← Tag.letter_of_ofLetter? htag, utf8Size_letter]
    rfl
  have hdigits := cut?_append (rest.takeWhile Char.isDigit) (rest.dropWhile Char.isDigit)
  rw [List.takeWhile_append_dropWhile, byteLength_takeWhile, ← digitsEnd_eq] at hdigits
  exact ⟨hsize ▸ cut?_append [ch] rest, hdigits⟩

theorem split_eq {total steps : ℕ} (hsteps : text.length ≤ steps)
    (htotal : byteLength text ≤ total) :
    split total steps text = some (Item.splitFrom (total - byteLength text) text) := by
  induction steps generalizing text with
  | zero =>
    obtain rfl := List.length_eq_zero_iff.mp (Nat.le_zero.mp hsteps)
    rw [split, Item.splitFrom]
    rfl
  | succ steps ih =>
    cases text with
    | nil =>
      rw [split, Item.splitFrom]
      rfl
    | cons ch rest =>
      rw [split, Item.splitFrom, difference?_eq htotal]
      cases htag : Tag.ofLetter? ch with
      | none => rfl
      | some tag =>
        obtain ⟨htagCut, hdigitsCut⟩ := cut?_item htag rest
        have hnil : digitsEnd rest = 0 ↔ rest.takeWhile Char.isDigit = [] := by
          rw [digitsEnd_eq, List.length_eq_zero_iff]
        have hsize : ch.utf8Size = 1 := by
          rw [← Tag.letter_of_ofLetter? htag, utf8Size_letter]
        have hbytes := byteLength_eq_add_dropWhile rest
        have hlength := (List.dropWhile_sublist Char.isDigit (l := rest)).length_le
        rw [byteLength] at htotal ⊢
        rw [List.length_cons] at hsteps
        have hoffset : total - (ch.utf8Size + byteLength rest) + 1
            + (rest.takeWhile Char.isDigit).length =
              total - byteLength (rest.dropWhile Char.isDigit) := by omega
        simp only [Option.bind_eq_bind, Option.bind_some, htagCut, hdigitsCut, hnil]
        split
        · rfl
        · rw [ih (by omega) (by omega), hoffset]
          rfl

theorem value_eq {digits : List Char} (h : ∀ c ∈ digits, c.isDigit = true) :
    value digits = some (Decimal.value digits) := by
  have hfold : ∀ v, digits.foldlM (fun v c => (10 * v + ·) <$> difference? c.toNat '0'.toNat) v =
      some (Nat.ofDigitChars 10 digits v) := by
    induction digits with
    | nil => exact fun _ => rfl
    | cons c digits ih =>
      rw [List.forall_mem_cons] at h
      intro v
      rw [List.foldlM_cons, difference?_eq (Char.isDigit_iff_toNat.mp h.1).1, Nat.ofDigitChars_cons]
      exact ih h.2 _
  exact hfold 0

theorem number_eq (text : List Char) : number text = some (Decimal.parse? text) := by
  unfold number Decimal.parse?
  by_cases h : text ≠ [] ∧ text.all Char.isDigit = true
  · rw [if_pos h, value_eq (List.all_eq_true.mp h.2)]
    by_cases hlt : Decimal.value text < Decimal.limit
    · rw [if_pos ⟨h.1, h.2, hlt⟩]
      exact congrArg some (if_pos hlt)
    · rw [if_neg fun hall => hlt hall.2.2]
      exact congrArg some (if_neg hlt)
  · rw [if_neg h, if_neg fun hall => h ⟨hall.1, hall.2.1⟩]
    rfl

theorem bind_eq_some {α β : Type} {x : ExceptT TextFault Option α} {e : Except TextFault α}
    {f : α → ExceptT TextFault Option β} {g : α → Except TextFault β} (hx : x = some e)
    (hf : ∀ a, f a = some (g a)) : (x >>= f) = some (e >>= g) := by
  subst hx
  cases e with
  | error fault => rfl
  | ok a => exact hf a

theorem read_eq (expected : Tag) (bound : ℕ) (item : Item) :
    read expected bound item = some (item.read expected bound) := by
  unfold read Item.read
  rw [number_eq]
  split
  · rfl
  · cases Decimal.parse? item.digits with
    | none => rfl
    | some v =>
      change (if v < bound then _ else _) = some (if v < bound then _ else _)
      split <;> rfl

theorem readRun_eq (expected : Tag) (bound : ℕ) (items : List Item) :
    readRun expected bound items = some (SecretTally.readRun expected bound items) := by
  induction items with
  | nil => rfl
  | cons item items ih =>
    exact bind_eq_some (read_eq expected bound item) fun v => bind_eq_some ih fun vs => rfl

theorem readPrime_eq (item : Item) : readPrime item = some (SecretTally.readPrime item) := by
  unfold readPrime SecretTally.readPrime
  rw [number_eq]
  split
  · rfl
  · cases Decimal.parse? item.digits with
    | none => rfl
    | some p =>
      change (if 5 ≤ p ∧ p % 2 = 1 then _ else _) = some (if 5 ≤ p ∧ p % 2 = 1 then _ else _)
      split <;> rfl

theorem ofItems_eq (items : List Item) : ofItems items = some (MembershipProof.ofItems items) := by
  cases items with
  | nil => rfl
  | cons first runs =>
    have htokens : ¬ 2 * (runs.length + 1) < 2 := by omega
    have hbeyond : 2 * (runs.length + 1) - 2 = 2 * runs.length := by omega
    rw [ofItems, MembershipProof.ofItems, List.length_cons, if_neg htokens,
      difference?_eq (by omega), hbeyond]
    simp only [Option.bind_eq_bind, Option.bind_some]
    split
    · next hcount =>
      rw [if_pos (by omega)]
      rfl
    · next hcount =>
      rw [if_neg (by omega)]
      have hquarter : 2 * runs.length / 8 = runs.length / 4 := by omega
      generalize hn : runs.length / 4 = n at hquarter
      have hlength : runs.length = 4 * n := by omega
      have hruns : slice? 1 (runs.length + 1) (first :: runs) = some runs := by
        rw [slice?_eq (by omega) (by simp), ← List.length_cons, List.take_length]
        rfl
      have hfront : slice? 0 n runs = some (runs.take n) := slice?_eq (by omega) (by omega)
      have hsecond : slice? n (2 * n) runs = some ((runs.drop n).take n) :=
        slice?_run (by omega) (by omega)
      have hthird : slice? (2 * n) (3 * n) runs = some ((runs.drop (2 * n)).take n) :=
        slice?_run (by omega) (by omega)
      have hback : slice? (3 * n) runs.length runs = some (runs.drop (3 * n)) := by
        rw [slice?_eq (by omega) le_rfl, List.take_length]
      rw [hquarter, List.getElem?_cons_zero, hruns]
      simp only [Option.bind_some, hfront, hsecond, hthird, hback]
      exact bind_eq_some (readPrime_eq first) fun p =>
        bind_eq_some (readRun_eq .y p _) fun y => bind_eq_some (readRun_eq .z p _) fun z =>
          bind_eq_some (readRun_eq .s _ _) fun s => bind_eq_some (readRun_eq .c _ _) fun c => rfl

theorem parse_eq (text : List Char) : parse text = some (MembershipProof.parse text) := by
  have hsplit : split (byteLength text) text.length text = some (Item.split text) := by
    rw [split_eq le_rfl le_rfl, Nat.sub_self, Item.split]
  rw [parse, hsplit, MembershipProof.parse]
  cases Item.split text with
  | error fault => rfl
  | ok items => exact ofItems_eq items

theorem parseBytes_eq (bytes : List UInt8) :
    parseBytes bytes = some (MembershipProof.parseBytes bytes) := by
  rw [parseBytes, MembershipProof.parseBytes]
  cases Utf8.decode bytes with
  | error fault => rfl
  | ok text => exact parse_eq text

end SecretTally.Position
