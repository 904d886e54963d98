import Mathlib
import SecretTally.Text.Quoted

/-! What messages show of a character. It stands there as it is or as an escape, and can be read back
from either, so that no two characters are shown alike. -/

namespace SecretTally.Text
variable {c : Char}

def hexDigit (c : Char) : ℕ :=
  if c.isDigit then c.toNat - '0'.toNat else 10 + (c.toNat - 'a'.toNat)

def hexValue (digits : List Char) : ℕ := digits.foldl (fun v c => 16 * v + hexDigit c) 0

def shortEscaped? : Char → Option Char
  | '0' => some '\x00'
  | 't' => some '\t'
  | 'r' => some '\r'
  | 'n' => some '\n'
  | '\x27' => some '\x27'
  | '\\' => some '\\'
  | _ => none

def unescape? : List Char → Option Char
  | [] => none
  | [c] => if c = '\x27' ∨ c = '\\' then none else some c
  | [slash, letter] => if slash = '\\' then shortEscaped? letter else none
  | slash :: u :: brace :: rest =>
    if slash = '\\' ∧ u = 'u' ∧ brace = '\x7b' ∧ rest.getLast? = some '\x7d' then
      some (Char.ofNat (hexValue rest.dropLast))
    else none

def unquote? (text : String) : Option Char :=
  match text.toList with
  | '\x27' :: rest => if rest.getLast? = some '\x27' then unescape? rest.dropLast else none
  | _ => none

theorem hexValue_toDigits (n : ℕ) : hexValue (Nat.toDigits 16 n) = n := by
  have hdigit : ∀ d < 16, hexDigit (Nat.digitChar d) = d := by decide +kernel
  induction n using Nat.strongRecOn with
  | ind n ih =>
    rw [Nat.toDigits_eq_if (by decide)]
    split
    · next hlt =>
      change 16 * 0 + _ = n
      rw [hdigit n hlt, mul_zero, zero_add]
    · next hge =>
      have hfront := ih (n / 16) (by omega)
      rw [hexValue] at hfront ⊢
      rw [List.foldl_append, hfront, List.foldl_cons, List.foldl_nil,
        hdigit (n % 16) (Nat.mod_lt n (by decide))]
      omega

theorem unescape?_hex (c : Char) :
    unescape? ('\\' :: 'u' :: '\x7b' :: (Nat.toDigits 16 c.toNat ++ ['\x7d'])) = some c := by
  rw [unescape?, List.getLast?_concat, if_pos ⟨rfl, rfl, rfl, rfl⟩, List.dropLast_concat,
    hexValue_toDigits, Char.ofNat_toNat]

theorem shortEscape?_eq (c : Char) : shortEscape? c =
    if c = '\x00' then some '0' else if c = '\t' then some 't' else if c = '\r' then some 'r'
    else if c = '\n' then some 'n' else if c = '\x27' ∨ c = '\\' then some c else none := by
  have hzero : c.toNat = 0 ↔ c = '\x00' := Char.toNat_inj (d := '\x00')
  have hquote : c.toNat = 39 ↔ c = '\x27' := Char.toNat_inj (d := '\x27')
  simp only [shortEscape?, hzero, hquote]

theorem unescape?_short {letter : Char} (h : shortEscape? c = some letter) :
    unescape? ['\\', letter] = some c := by
  rw [shortEscape?_eq] at h
  split_ifs at h with hzero htab hreturn hnewline hself
  · cases h
    exact congrArg some hzero.symm
  · cases h
    exact congrArg some htab.symm
  · cases h
    exact congrArg some hreturn.symm
  · cases h
    exact congrArg some hnewline.symm
  · cases h
    rcases hself with rfl | rfl <;> rfl

theorem unescape?_self (h : shortEscape? c = none) : unescape? [c] = some c := by
  rw [shortEscape?_eq] at h
  split_ifs at h with _ _ _ _ hself
  exact if_neg hself

theorem unquote?_quoted (c : Char) : unquote? (quoted c) = some c := by
  have hquotes (body : String) : unquote? ("'" ++ body ++ "'") = unescape? body.toList := by
    have htext : ("'" ++ body ++ "'").toList = '\x27' :: (body.toList ++ ['\x27']) := by
      simp
    rw [unquote?, htext]
    simp
  rw [quoted]
  simp only [hquotes]
  cases hshort : shortEscape? c with
  | some letter => exact (congrArg unescape? (by simp)).trans (unescape?_short hshort)
  | none =>
    dsimp only
    split
    · exact (congrArg unescape? (by simp [hex])).trans (unescape?_hex c)
    · exact (congrArg unescape? (by simp)).trans (unescape?_self hshort)

theorem quoted_injective : Function.Injective quoted := fun a b h => by
  rw [← Option.some_inj, ← unquote?_quoted a, h, unquote?_quoted b]

theorem isGlyphless_iff : isGlyphless c = true ↔
    ∃ run ∈ glyphlessRanges, run.1 ≤ c.toNat ∧ c.toNat ≤ run.2 := by
  simp [isGlyphless]

/-- The runs are as long as they can be, and none meets another. -/
theorem glyphlessRanges_apart :
    (∀ run ∈ glyphlessRanges, run.1 ≤ run.2) ∧
      glyphlessRanges.IsChain fun run next => run.2 + 1 < next.1 := by
  decide +kernel

theorem isGlyphless_eq_false_of_ascii (hlow : 0x20 ≤ c.toNat) (hhigh : c.toNat ≤ 0x7e) :
    isGlyphless c = false := by
  have hruns : ∀ run ∈ glyphlessRanges, run.2 < 0x20 ∨ 0x7e < run.1 := by decide +kernel
  rw [Bool.eq_false_iff, Ne, isGlyphless_iff]
  rintro ⟨run, hrun, hfirst, hlast⟩
  have := hruns run hrun
  omega

theorem isGlyphless_of_control (h : c.toNat < 0x20) : isGlyphless c = true :=
  isGlyphless_iff.mpr ⟨(0x0, 0x1f), List.mem_cons_self, Nat.zero_le _, Nat.le_of_lt_succ h⟩

theorem shortEscape?_eq_none (h : isGlyphless c = false) (hquote : c ≠ '\x27')
    (hslash : c ≠ '\\') : shortEscape? c = none := by
  have hcontrol : ¬ c.toNat < 0x20 := fun hlt => by
    rw [isGlyphless_of_control hlt] at h
    cases h
  rw [shortEscape?_eq]
  split_ifs with hzero htab hreturn hnewline hself
  · exact absurd (hzero ▸ (by decide)) hcontrol
  · exact absurd (htab ▸ (by decide)) hcontrol
  · exact absurd (hreturn ▸ (by decide)) hcontrol
  · exact absurd (hnewline ▸ (by decide)) hcontrol
  · exact (hself.elim hquote hslash).elim
  · rfl

theorem quoted_eq_self (h : isGlyphless c = false) (hquote : c ≠ '\x27') (hslash : c ≠ '\\') :
    quoted c = "'" ++ c.toString ++ "'" := by
  rw [quoted, shortEscape?_eq_none h hquote hslash, h]
  rfl

end SecretTally.Text
