import Mathlib
import SecretTally.Number.Words
import SecretTally.Proofs.Number.Decimal
import SecretTally.Proofs.Text.Utf8

/-! Arithmetic on words is arithmetic on the numbers that they stand for: a division leaves nothing
out at the ends of the words, and a carry is left over exactly if the result is too wide. So the text of
the words is the text of their number, whatever its length. -/

namespace SecretTally

namespace Words
variable {words : List UInt64}

theorem value_lt (words : List UInt64) : value words < Decimal.wordLimit ^ words.length := by
  induction words with
  | nil => exact Nat.one_pos
  | cons w rest ih =>
    have hw : w.toNat < Decimal.wordLimit := w.toNat_lt
    rw [value, List.length_cons, pow_succ']
    calc w.toNat + Decimal.wordLimit * value rest
        < Decimal.wordLimit * (value rest + 1) := by rw [mul_add_one]; omega
      _ ≤ Decimal.wordLimit * Decimal.wordLimit ^ rest.length := Nat.mul_le_mul_left _ ih

theorem value_injective {a b : List UInt64} (hlength : a.length = b.length)
    (h : value a = value b) : a = b := by
  induction a generalizing b with
  | nil => exact (List.length_eq_zero_iff.mp hlength.symm).symm
  | cons v a ih =>
    cases b with
    | nil => cases hlength
    | cons w b =>
      have hv := v.toNat_lt
      have hw := w.toNat_lt
      rw [value, value, wordLimit_eq] at h
      have hhead : v.toNat = w.toNat := by omega
      have htail : value a = value b := by omega
      rw [UInt64.toNat_inj.mp hhead, ih (Nat.succ.inj hlength) htail]

theorem value_ofNat (count n : ℕ) : value (ofNat count n) = n % Decimal.wordLimit ^ count := by
  induction count generalizing n with
  | zero => rw [pow_zero, Nat.mod_one]; rfl
  | succ count ih =>
    have hword : (UInt64.ofNat n).toNat = n % Decimal.wordLimit := UInt64.toNat_ofNat'
    rw [ofNat, value, hword, ih, pow_succ', Nat.mod_mul]

theorem toNat_product {carry : DoubleWord} (w : UInt64) (h : carry.toNat < 10) :
    (widen w * 10 + carry).toNat = 10 * w.toNat + carry.toNat := by
  have hw := w.toNat_lt
  have hten : (10 : DoubleWord).toNat = 10 := rfl
  rw [BitVec.toNat_add, BitVec.toNat_mul, toNat_widen, hten]
  omega

theorem timesTen_spec {carry : DoubleWord} (h : carry.toNat < 10) (words : List UInt64) :
    value (timesTen carry words).1
        + Decimal.wordLimit ^ words.length * (timesTen carry words).2.toNat =
      10 * value words + carry.toNat := by
  induction words generalizing carry with
  | nil => simp [timesTen, value]
  | cons w rest ih =>
    have hw := w.toNat_lt
    have hproduct := toNat_product w h
    have hcarry : ((widen w * 10 + carry) >>> 64).toNat =
        (10 * w.toNat + carry.toNat) / Decimal.wordLimit := by
      rw [BitVec.toNat_ushiftRight, hproduct, Nat.shiftRight_eq_div_pow]
      rfl
    have hdigit : ((widen w * 10 + carry) >>> 64).toNat < 10 := by
      rw [hcarry, wordLimit_eq]
      omega
    have hnext := ih hdigit
    have hsplit := Nat.mod_add_div (10 * w.toNat + carry.toNat) Decimal.wordLimit
    rw [hcarry] at hnext
    simp only [timesTen, value, toNat_narrow, hproduct, List.length_cons, pow_succ', mul_assoc]
    rw [add_assoc, ← mul_add, hnext]
    linarith only [hsplit]

theorem chunks_of_value_eq_zero (h : value words = 0) : chunks words = [] := by
  rw [chunks, value_eq_zero_iff.mp h]
  rfl

theorem chunks_of_value_ne_zero (h : value words ≠ 0) :
    chunks words = narrow (divide words).2 :: chunks (divide words).1 := by
  rw [chunks, if_pos]
  rwa [Ne, value_eq_zero_iff, Bool.not_eq_false] at h

theorem toNat_remainder (words : List UInt64) :
    (narrow (divide words).2).toNat = value words % 10 ^ 9 := by
  rw [toNat_narrow, (divide_spec words).2, wordLimit_eq]
  omega

theorem chunksText_cons {c : UInt64} {cs : List UInt64} (h : cs ≠ []) :
    chunksText (c :: cs) = chunksText cs ++ chunkText c := by
  unfold chunksText
  rw [List.reverse_cons]
  cases hcs : cs.reverse with
  | nil => exact absurd (List.reverse_eq_nil_iff.mp hcs) h
  | cons leading rest => simp [List.flatMap_append]

theorem chunksText_chunks (words : List UInt64) :
    chunksText (chunks words) = Decimal.print (value words) := by
  induction words using chunks.induct with
  | case2 words h =>
    have hzero := value_eq_zero_iff.mpr (Bool.not_eq_true _ ▸ h)
    rw [chunks_of_value_eq_zero hzero, hzero]
    rfl
  | case1 words h ih =>
    have hne : value words ≠ 0 := fun hzero =>
      Bool.noConfusion (h.symm.trans (value_eq_zero_iff.mp hzero))
    have hquotient : value (divide words).1 = value words / 10 ^ 9 := (divide_spec words).1
    rw [chunks_of_value_ne_zero hne]
    by_cases hlast : value (divide words).1 = 0
    · have hsmall : value words % 10 ^ 9 = value words := by omega
      rw [chunks_of_value_eq_zero hlast, ← hsmall, ← toNat_remainder]
      exact List.append_nil _
    · have hnil : chunks (divide words).1 ≠ [] := by simp [chunks_of_value_ne_zero hlast]
      rw [chunksText_cons hnil, ih, chunkText, toNat_remainder, hquotient,
        ← Decimal.print_mul_pow_add (by omega) (by decide) (Nat.mod_lt _ (by decide)), Nat.div_add_mod]

theorem length_chunks_le {n : ℕ} (h : value words < (10 ^ 9) ^ n) : (chunks words).length ≤ n := by
  induction n generalizing words with
  | zero =>
    rw [chunks_of_value_eq_zero (Nat.lt_one_iff.mp h)]
    rfl
  | succ n ih =>
    by_cases hzero : value words = 0
    · rw [chunks_of_value_eq_zero hzero]
      exact Nat.zero_le _
    · rw [chunks_of_value_ne_zero hzero, List.length_cons]
      refine Nat.succ_le_succ (ih ?_)
      rw [pow_succ'] at h
      rw [(divide_spec words).1]
      exact Nat.div_lt_of_lt_mul h

end Words

namespace WideInt
variable {x : WideInt} {text digits : List Char} {v : ℕ}

theorem limit_eq : Decimal.limit = Decimal.wordLimit ^ 32 := by decide +kernel

theorem value_lt (x : WideInt) : x.value < Decimal.limit := by
  rw [limit_eq, ← x.length_words]
  exact Words.value_lt x.words

theorem value_injective : Function.Injective value := by
  rintro ⟨a, ha⟩ ⟨b, hb⟩ h
  obtain rfl := Words.value_injective (ha.trans hb.symm) h
  rfl

theorem value_ofNat (h : v < Decimal.limit) : (ofNat v).value = v := by
  rw [value, ofNat, Words.value_ofNat, ← limit_eq, Nat.mod_eq_of_lt h]

theorem print_eq (x : WideInt) : x.print = Decimal.print x.value := Words.chunksText_chunks x.words

theorem map_value_push? {digit : UInt8} (x : WideInt) (h : digit.toNat < 10) :
    (x.push? digit).map value =
      if 10 * x.value + digit.toNat < Decimal.limit then some (10 * x.value + digit.toNat)
      else none := by
  have hcarry : (digit.toBitVec.setWidth 128 : DoubleWord).toNat = digit.toNat := by
    rw [BitVec.toNat_setWidth, UInt8.toNat_toBitVec]
    omega
  have hspec := Words.timesTen_spec (hcarry.symm ▸ h) x.words
  have hlt := Words.value_lt (Words.timesTen (digit.toBitVec.setWidth 128) x.words).1
  rw [Words.length_timesTen] at hlt
  rw [x.length_words, ← limit_eq, hcarry] at hspec
  rw [x.length_words, ← limit_eq] at hlt
  unfold push?
  by_cases hzero : (Words.timesTen (digit.toBitVec.setWidth 128) x.words).2 = 0
  · have hvalue : Words.value (Words.timesTen (digit.toBitVec.setWidth 128) x.words).1 =
        10 * x.value + digit.toNat := by
      rw [hzero] at hspec
      exact hspec
    rw [if_neg (not_not.mpr hzero), if_pos (hvalue ▸ hlt), Option.map_some, ← hvalue]
    rfl
  · have hpos : 0 < (Words.timesTen (digit.toBitVec.setWidth 128) x.words).2.toNat :=
      Nat.pos_of_ne_zero fun h0 => hzero (BitVec.eq_of_toNat_eq h0)
    have hwide : ¬ 10 * x.value + digit.toNat < Decimal.limit := by
      have := Nat.le_mul_of_pos_right Decimal.limit hpos
      change _ = 10 * x.value + digit.toNat at hspec
      omega
    rw [if_pos hzero, if_neg hwide, Option.map_none]

theorem le_ofDigitChars (digits : List Char) (v : ℕ) : v ≤ Nat.ofDigitChars 10 digits v := by
  rw [Nat.ofDigitChars_eq_ofDigitChars_zero]
  exact le_add_right (Nat.le_mul_of_pos_left v (by positivity))

theorem map_value_foldlM_push? (hdigit : ∀ c ∈ digits, c.isDigit = true) (x : WideInt) :
    ((digits.map Char.toUInt8).foldlM (fun x b => push? x (b - 0x30)) x).map value =
      if Nat.ofDigitChars 10 digits x.value < Decimal.limit
      then some (Nat.ofDigitChars 10 digits x.value) else none := by
  induction digits generalizing x with
  | nil =>
    rw [List.map_nil, List.foldlM_nil, Nat.ofDigitChars_nil, if_pos x.value_lt]
    rfl
  | cons c digits ih =>
    rw [List.forall_mem_cons] at hdigit
    obtain ⟨hlow, hhigh⟩ := Char.isDigit_iff_toNat.mp hdigit.1
    have hbyte : (c.toUInt8 - 0x30).toNat = c.toNat - '0'.toNat := by
      have hc := Utf8.toNat_toUInt8 (hhigh.trans_lt (by decide))
      rw [UInt8.toNat_sub_of_le, hc]
      · rfl
      · rw [UInt8.le_iff_toNat_le, hc]
        exact hlow
    have hpush := map_value_push? x (hbyte.trans_lt (Decimal.digitChar_of_isDigit hdigit.1).1)
    rw [hbyte] at hpush
    rw [List.map_cons, List.foldlM_cons, Nat.ofDigitChars_cons]
    cases hx : x.push? (c.toUInt8 - 0x30) with
    | some y =>
      rw [hx, Option.map_some] at hpush
      obtain ⟨-, hy⟩ := Option.ite_none_right_eq_some.mp hpush.symm
      rw [Option.some.inj hy]
      exact ih hdigit.2 y
    | none =>
      rw [hx, Option.map_none] at hpush
      have hwide : ¬ 10 * x.value + (c.toNat - '0'.toNat) < Decimal.limit := fun h => by
        rw [if_pos h] at hpush
        cases hpush
      have hle := le_ofDigitChars digits (10 * x.value + (c.toNat - '0'.toNat))
      rw [if_neg (by omega)]
      rfl

theorem isDigit_iff {b : UInt8} : isDigit b = true ↔ 48 ≤ b.toNat ∧ b.toNat ≤ 57 := by
  rw [isDigit, Bool.and_eq_true, decide_eq_true_eq, decide_eq_true_eq, UInt8.le_iff_toNat_le,
    UInt8.le_iff_toNat_le]
  rfl

theorem isUTF8FirstByte_of_isDigit {b : UInt8} (h : isDigit b = true) : b.IsUTF8FirstByte := by
  obtain ⟨hlow, hhigh⟩ := isDigit_iff.mp h
  generalize hn : b.toNat = n at hlow hhigh
  rw [← UInt8.ofNat_toNat (x := b), hn]
  interval_cases n <;> decide

theorem all_isDigit_utf8EncodeChar (c : Char) :
    (String.utf8EncodeChar c).all isDigit = c.isDigit := by
  by_cases hsize : c.utf8Size = 1
  · have hbyte := Utf8.toNat_toUInt8 (Utf8.utf8Size_eq_one_iff.mp hsize)
    rw [String.utf8EncodeChar_eq_singleton hsize, Char.toUInt8_val, Bool.eq_iff_iff, List.all_cons,
      List.all_nil, Bool.and_true, isDigit_iff, hbyte, Char.isDigit_iff_toNat]
    rfl
  · have hlength : 1 < (String.utf8EncodeChar c).length := by
      rw [String.length_utf8EncodeChar]
      exact Nat.lt_of_le_of_ne c.utf8Size_pos (Ne.symm hsize)
    have hsecond : ¬ isDigit (String.utf8EncodeChar c)[1] = true := fun h =>
      absurd (UInt8.isUTF8FirstByte_getElem_utf8EncodeChar.mp (isUTF8FirstByte_of_isDigit h))
        Nat.one_ne_zero
    have hdigit : c.isDigit = false :=
      Bool.eq_false_iff.mpr fun h => hsize (Utf8.utf8Size_of_isDigit h)
    rw [hdigit, List.all_eq_false]
    exact ⟨_, List.getElem_mem hlength, hsecond⟩

theorem map_value_parse? (text : List Char) : (parse? text).map value = Decimal.parse? text := by
  have hall : (text.flatMap String.utf8EncodeChar).all isDigit = text.all Char.isDigit := by
    rw [List.all_flatMap]
    exact congrArg text.all (funext all_isDigit_utf8EncodeChar)
  have hnil : text.flatMap String.utf8EncodeChar = [] ↔ text = [] := by
    cases text <;> simp [String.utf8EncodeChar_ne_nil]
  simp only [parse?, Decimal.parse?, hall, hnil]
  by_cases hdigits : text ≠ [] ∧ text.all Char.isDigit = true
  · obtain ⟨hne, hdigits⟩ := hdigits
    have hascii : ∀ c ∈ text, c.isDigit = true := List.all_eq_true.mp hdigits
    have hbytes : text.flatMap String.utf8EncodeChar = text.map Char.toUInt8 :=
      Utf8.flatMap_utf8EncodeChar fun c hc =>
        (Char.isDigit_iff_toNat.mp (hascii c hc)).2.trans_lt (by decide)
    have hzero : (ofNat 0).value = 0 := value_ofNat (by decide +kernel)
    rw [if_neg (by simp [hne, hdigits]), hbytes, map_value_foldlM_push? hascii, hzero]
    simp only [hne, hdigits, ne_eq, not_false_eq_true, true_and, Decimal.value]
  · have hrefused : text = [] ∨ text.all Char.isDigit = false := by
      rwa [not_and_or, not_not, Bool.not_eq_true] at hdigits
    rw [if_pos hrefused, if_neg fun h => hdigits ⟨h.1, h.2.1⟩, Option.map_none]

theorem parse?_eq_some_iff {text : List Char} {x : WideInt} :
    parse? text = some x ↔ Decimal.IsNumeral text ∧ Decimal.value text = x.value := by
  rw [← (Option.map_injective value_injective).eq_iff, map_value_parse?, Option.map_some,
    Decimal.parse?_eq_some_iff]
  exact and_congr_right fun _ => and_iff_left x.value_lt

theorem limit_eq_two_pow : Decimal.limit = 2 ^ 2048 := by decide +kernel

theorem parse?_eq_none_iff {text : List Char} : parse? text = none ↔
    ¬ (Decimal.IsNumeral text ∧ Decimal.value text < Decimal.limit) := by
  constructor
  · rintro hnone ⟨hnumeral, hlt⟩
    have hsome : parse? text = some (ofNat (Decimal.value text)) :=
      parse?_eq_some_iff.mpr ⟨hnumeral, (value_ofNat hlt).symm⟩
    rw [hnone] at hsome
    cases hsome
  · intro h
    refine Option.eq_none_iff_forall_ne_some.mpr fun x hx => ?_
    obtain ⟨hnumeral, hvalue⟩ := parse?_eq_some_iff.mp hx
    exact h ⟨hnumeral, hvalue ▸ x.value_lt⟩

/-- Reading takes exactly the runs of ASCII digits whose number fits, and gives this number. Printing
ends after 69 divisions at most, with the only run of digits for the number that has no superfluous
zero. So printing and reading undo each other but for such zeros, and both do what printing and reading
do for numbers of any size. -/
theorem decimal_exact :
    (∀ (text : List Char) (v : ℕ), (parse? text).map value = some v ↔
      Decimal.IsNumeral text ∧ Decimal.value text = v ∧ v < 2 ^ 2048) ∧
    (∀ text : List Char, parse? text = none ↔
      ¬ (Decimal.IsNumeral text ∧ Decimal.value text < 2 ^ 2048)) ∧
    (∀ v < 2 ^ 2048, ∃! x : WideInt, x.value = v) ∧
    (∀ x : WideInt, (Words.chunks x.words).length ≤ 69) ∧
    (∀ (x : WideInt) (digits : List Char), digits = x.print ↔ Decimal.IsNumeral digits ∧
      Decimal.value digits = x.value ∧ ¬ ∃ c rest, digits = '0' :: c :: rest) ∧
    (ofNat 0).print = ['0'] ∧
    (∀ x : WideInt, parse? x.print = some x) ∧
    (∀ (text : List Char) (x : WideInt), parse? text = some x → x.print = Decimal.trim text) ∧
    (∀ x : WideInt, x.print = Decimal.print x.value) ∧
    ∀ text : List Char, (parse? text).map value = Decimal.parse? text := by
  refine ⟨fun text v => ?_, fun text => ?_, fun v hv => ?_, fun x => ?_, fun x digits => ?_, ?_,
    fun x => ?_, fun text x h => ?_, print_eq, map_value_parse?⟩
  · rw [map_value_parse?, Decimal.parse?_eq_some_iff, limit_eq_two_pow]
  · rw [parse?_eq_none_iff, limit_eq_two_pow]
  · rw [← limit_eq_two_pow] at hv
    exact ⟨ofNat v, value_ofNat hv, fun x hx => value_injective (hx.trans (value_ofNat hv).symm)⟩
  · exact Words.length_chunks_le (x.value_lt.trans_le (by decide +kernel))
  · rw [print_eq, ← Decimal.trim_eq_self_iff]
    constructor
    · rintro rfl
      have hnumeral := Decimal.isNumeral_print x.value
      refine ⟨hnumeral, Decimal.value_print x.value, ?_⟩
      rw [← Decimal.print_value hnumeral, Decimal.value_print]
    · rintro ⟨hnumeral, hvalue, htrim⟩
      rw [← hvalue, Decimal.print_value hnumeral, htrim]
  · rw [print_eq, value_ofNat (by decide +kernel)]
    rfl
  · rw [parse?_eq_some_iff, print_eq]
    exact ⟨Decimal.isNumeral_print x.value, Decimal.value_print x.value⟩
  · obtain ⟨hnumeral, hvalue⟩ := parse?_eq_some_iff.mp h
    rw [print_eq, ← hvalue, Decimal.print_value hnumeral]

theorem decimal_exact_inner_zeros :
    let text : List Char := "0001000000000000000007".toList
    (parse? text).map value = some 1000000000000000007 ∧
      (∀ x : WideInt, parse? text = some x → x.print = "1000000000000000007".toList) ∧
      parse? (Decimal.print (2 ^ 2048)) = none ∧
      ∃! x : WideInt, x.value = 2 ^ 2048 - 1 := by
  intro text
  obtain ⟨hread, hnone, hvalue, -, -, -, -, hprint, -⟩ := decimal_exact
  refine ⟨(hread text _).mpr ⟨by decide, by decide, by decide +kernel⟩, fun x hx => ?_,
    (hnone _).mpr fun h => ?_, hvalue _ (Nat.sub_lt (by positivity) Nat.one_pos)⟩
  · rw [hprint text x hx]
    rfl
  · rw [Decimal.value_print] at h
    exact absurd h.2 (lt_irrefl _)

end WideInt
end SecretTally
