import Mathlib
import SecretTally.Proofs.Text.Quoted
import SecretTally.Proofs.Wire.Item
import SecretTally.Proofs.Wire.Position

/-! Where a text stops being a sequence of items. Splitting goes on as long as items do, so that what
it has split when it stops is the longest beginning of the text that items spell. The character behind
this beginning, a tag or none, decides on the fault. -/

namespace SecretTally.Item

def Spells (items : List Item) (chars : List Char) : Prop :=
  (∀ item ∈ items, item.Proper) ∧ items.flatMap text = chars

def Spelled (chars : List Char) : Prop := ∃ items, Spells items chars

def TakesRuns (items : List Item) : Prop :=
  ∀ before item after, items = before ++ item :: after →
    (item.digits ++ after.flatMap text).takeWhile Char.isDigit = item.digits

/-- The longest beginning that items spell, and the character behind it. -/
structure BreaksAt (chars front : List Char) (ch : Char) : Prop where
  isPrefix : front ++ [ch] <+: chars
  spelled : Spelled front
  longest : ∀ other, other <+: chars → Spelled other → other <+: front

variable {item : Item} {items others : List Item} {chars front front' rest other : List Char}
  {ch ch' : Char} {tag : Tag} {fault : TextFault}

theorem spelled_nil : Spelled [] := ⟨[], List.forall_mem_nil _, rfl⟩

theorem Spelled.text_append (h : item.Proper) (hfront : Spelled front) :
    Spelled (item.text ++ front) := by
  obtain ⟨items, hproper, rfl⟩ := hfront
  exact ⟨item :: items, List.forall_mem_cons.mpr ⟨h, hproper⟩, List.flatMap_cons⟩

theorem Spelled.length_utf8 (h : Spelled front) :
    (front.flatMap String.utf8EncodeChar).length = front.length := by
  obtain ⟨items, hproper, rfl⟩ := h
  rw [Utf8.flatMap_utf8EncodeChar (ascii_flatMap_text hproper), List.length_map]

theorem spells_cons_begins (h : Spells (item :: items) other) (hother : other <+: ch :: rest) :
    Tag.ofLetter? ch = some item.tag ∧ rest.takeWhile Char.isDigit ≠ [] ∧
      (items = [] ∧ item.digits <+: rest.takeWhile Char.isDigit ∨
        item.digits = rest.takeWhile Char.isDigit ∧
          items.flatMap text <+: rest.dropWhile Char.isDigit) := by
  obtain ⟨hproper, rfl⟩ := h
  obtain ⟨⟨hne, hdigit⟩, -⟩ := List.forall_mem_cons.mp hproper
  obtain ⟨tail, htail⟩ := hother
  rw [List.flatMap_cons, text, List.append_assoc, List.cons_append, List.cons.injEq] at htail
  obtain ⟨rfl, rfl⟩ := htail
  rw [List.takeWhile_append_of_pos hdigit, List.dropWhile_append_of_pos hdigit]
  refine ⟨Tag.ofLetter?_letter item.tag, List.append_ne_nil_of_left_ne_nil hne _, ?_⟩
  cases items with
  | nil => exact .inl ⟨rfl, List.prefix_append _ _⟩
  | cons next items =>
    have hletter : ¬ next.tag.letter.isDigit = true := by simp [next.tag.isDigit_letter]
    rw [List.flatMap_cons, text, List.cons_append, List.cons_append,
      List.takeWhile_cons_of_neg hletter, List.dropWhile_cons_of_neg hletter, List.append_nil]
    exact .inr ⟨rfl, List.prefix_append _ tail⟩

theorem breaksAt_nil (h : ∀ tag, Tag.ofLetter? ch = some tag → rest.takeWhile Char.isDigit = []) :
    BreaksAt (ch :: rest) [] ch := by
  refine ⟨List.prefix_append [ch] rest, spelled_nil, ?_⟩
  rintro other hother ⟨items, hitems⟩
  cases items with
  | nil => exact hitems.2 ▸ List.nil_prefix
  | cons item items =>
    obtain ⟨htag, hdigits, -⟩ := spells_cons_begins hitems hother
    exact absurd (h item.tag htag) hdigits

theorem BreaksAt.text_append (htag : Tag.ofLetter? ch = some tag)
    (hne : rest.takeWhile Char.isDigit ≠ [])
    (h : BreaksAt (rest.dropWhile Char.isDigit) front ch') :
    BreaksAt (ch :: rest) (text ⟨tag, rest.takeWhile Char.isDigit⟩ ++ front) ch' := by
  have hletter : tag.letter = ch := Tag.letter_of_ofLetter? htag
  have hproper : Proper ⟨tag, rest.takeWhile Char.isDigit⟩ :=
    ⟨hne, fun c hc => List.mem_takeWhile_imp hc⟩
  refine ⟨?_, h.spelled.text_append hproper, ?_⟩
  · have hchars : text ⟨tag, rest.takeWhile Char.isDigit⟩ ++ rest.dropWhile Char.isDigit =
        ch :: rest := by
      rw [text, List.cons_append, List.takeWhile_append_dropWhile, hletter]
    rw [List.append_assoc, ← hchars]
    exact (List.prefix_append_right_inj _).mpr h.isPrefix
  · rintro other hother ⟨items, hitems⟩
    cases items with
    | nil => exact hitems.2 ▸ List.nil_prefix
    | cons item items =>
      obtain ⟨hitem, -, hrun⟩ := spells_cons_begins hitems hother
      obtain ⟨hall, rfl⟩ := hitems
      obtain rfl : tag = item.tag := Option.some.inj (htag.symm.trans hitem)
      rw [List.flatMap_cons]
      rcases hrun with ⟨rfl, hdigits⟩ | ⟨hdigits, hitems⟩
      · rw [List.flatMap_nil, List.append_nil, text, text]
        exact (List.prefix_cons_inj _).mpr (hdigits.trans (List.prefix_append _ front))
      · rw [text, text, hdigits, List.prefix_append_right_inj]
        exact h.longest _ hitems ⟨items, fun i hi => hall i (List.mem_cons_of_mem _ hi), rfl⟩

theorem BreaksAt.unique (h : BreaksAt chars front ch) (h' : BreaksAt chars front' ch') :
    front = front' ∧ ch = ch' := by
  have hfront : front = front' := by
    have hle := h.longest front' ((List.prefix_append _ _).trans h'.isPrefix) h'.spelled
    have hge := h'.longest front ((List.prefix_append _ _).trans h.isPrefix) h.spelled
    exact hge.eq_of_length (Nat.le_antisymm hge.length_le hle.length_le)
  subst hfront
  have hlast := List.prefix_of_prefix_length_le h.isPrefix h'.isPrefix (by simp)
  rw [List.prefix_append_right_inj] at hlast
  exact ⟨rfl, by simpa using hlast⟩

theorem BreaksAt.not_spelled (h : BreaksAt chars front ch) : ¬ Spelled chars := by
  intro hchars
  have hlong := h.isPrefix.length_le
  have hshort := (h.longest chars List.prefix_rfl hchars).length_le
  rw [List.length_append, List.length_singleton] at hlong
  omega

def FaultAt (offset : ℕ) (ch : Char) (fault : TextFault) : Prop :=
  (∃ tag : Tag, ch = tag.letter ∧ fault = .noValue tag offset) ∨
    (∀ tag : Tag, ch ≠ tag.letter) ∧ fault = .noTag offset ch

theorem FaultAt.unique {offset : ℕ} {fault' : TextFault} (h : FaultAt offset ch fault)
    (h' : FaultAt offset ch fault') : fault = fault' := by
  rcases h with ⟨tag, rfl, rfl⟩ | ⟨hnone, rfl⟩ <;> rcases h' with ⟨tag', htag, rfl⟩ | ⟨hnone', rfl⟩
  · rw [Tag.letter_inj htag]
  · exact absurd rfl (hnone' tag)
  · exact absurd htag (hnone tag')
  · rfl

theorem breaksAt_of_splitFrom {offset : ℕ} (h : splitFrom offset chars = .error fault) :
    ∃ front ch, BreaksAt chars front ch ∧ FaultAt (offset + front.length) ch fault := by
  fun_induction splitFrom offset chars generalizing fault with
  | case1 offset => cases h
  | case2 offset ch rest hnone =>
    cases h
    refine ⟨[], ch, breaksAt_nil (by simp [hnone]), .inr ⟨?_, rfl⟩⟩
    rintro tag rfl
    rw [Tag.ofLetter?_letter] at hnone
    cases hnone
  | case3 offset ch rest tag htag digits =>
    rename_i hnil
    cases h
    exact ⟨[], ch, breaksAt_nil fun _ _ => hnil, .inl ⟨tag, (Tag.letter_of_ofLetter? htag).symm, rfl⟩⟩
  | case4 offset ch rest tag htag digits hne =>
    rename_i ih
    obtain ⟨front, ch', hbreaks, hfault⟩ := ih (map_eq_error.mp h)
    refine ⟨_, ch', hbreaks.text_append htag hne, ?_⟩
    have hoffset : offset + (text ⟨tag, digits⟩ ++ front).length =
        offset + 1 + digits.length + front.length := by
      simp only [text, List.cons_append, List.length_cons, List.length_append]
      omega
    exact hoffset ▸ hfault

theorem split_eq_error_iff : split chars = .error fault ↔ ∃ front ch, BreaksAt chars front ch ∧
    FaultAt (front.flatMap String.utf8EncodeChar).length ch fault := by
  have hbreaks {fault} (h : split chars = .error fault) : ∃ front ch, BreaksAt chars front ch ∧
      FaultAt (front.flatMap String.utf8EncodeChar).length ch fault := by
    obtain ⟨front, ch, hbreaks, hfault⟩ := breaksAt_of_splitFrom h
    rw [Nat.zero_add, ← hbreaks.spelled.length_utf8] at hfault
    exact ⟨front, ch, hbreaks, hfault⟩
  refine ⟨hbreaks, ?_⟩
  rintro ⟨front, ch, h, hfault⟩
  cases hsplit : split chars with
  | ok items => exact absurd ⟨items, split_eq_ok_iff.mp hsplit⟩ h.not_spelled
  | error fault' =>
    obtain ⟨front', ch', h', hfault'⟩ := hbreaks hsplit
    obtain ⟨rfl, rfl⟩ := h.unique h'
    rw [hfault'.unique hfault]

theorem Spells.takesRuns (h : Spells items chars) : TakesRuns items := by
  rintro before item after rfl
  exact (span_digits (h.1 item (by simp)) after).1

theorem message_noValue (tag : Tag) (offset : ℕ) :
    (Refusal.malformedText (.noValue tag offset)).message =
      "malformed proof text: tag `" ++ tag.letter.toString ++ "` at offset " ++ toString offset
        ++ " has no value" := by
  have hfront : "malformed proof text: " ++ "tag `" = "malformed proof text: tag `" := by decide
  change "malformed proof text: " ++ ("tag `" ++ _ ++ ("` at offset " ++ _ ++ " has no value")) = _
  rw [← hfront]
  simp only [String.append_assoc]

theorem message_noTag (offset : ℕ) (ch : Char) :
    (Refusal.malformedText (.noTag offset ch)).message =
      "malformed proof text: expected a tag at offset " ++ toString offset ++ ", found "
        ++ Text.quoted ch := by
  have hfront : "malformed proof text: " ++ "expected a tag at offset " =
      "malformed proof text: expected a tag at offset " := by decide
  change "malformed proof text: " ++ ("expected a tag at offset " ++ _ ++ ", found " ++ _) = _
  rw [← hfront]
  simp only [String.append_assoc]

/-- A text splits exactly if items spell it, and then into these: no others spell it, and each has its
whole run of digits. Any other text is refused behind its longest beginning that items spell. The byte
there is reported, with the tag that has no digit behind it, or with the character that is no tag. This
character can be read back from what is shown of it, and stands there as it is if it has a glyph and
needs no escape. Counting and cutting bytes comes to the same in no more rounds than there are
characters. -/
theorem split_first_violation (chars : List Char) :
    (∀ items, split chars = .ok items ↔ Spells items chars) ∧
    (∀ items, Spells items chars → TakesRuns items ∧ ∀ others, Spells others chars → others = items) ∧
    (∀ fault, split chars = .error fault ↔ ∃ front ch, BreaksAt chars front ch ∧
      FaultAt (front.flatMap String.utf8EncodeChar).length ch fault) ∧
    (∀ tag offset, (Refusal.malformedText (.noValue tag offset)).message =
      "malformed proof text: tag `" ++ tag.letter.toString ++ "` at offset " ++ toString offset
        ++ " has no value") ∧
    (∀ offset ch, (Refusal.malformedText (.noTag offset ch)).message =
      "malformed proof text: expected a tag at offset " ++ toString offset ++ ", found "
        ++ Text.quoted ch) ∧
    (∀ ch, Text.unquote? (Text.quoted ch) = some ch) ∧ Function.Injective Text.quoted ∧
    (∀ ch, Text.isGlyphless ch = false → ch ≠ '\x27' → ch ≠ '\\' →
      Text.quoted ch = "'" ++ ch.toString ++ "'") ∧
    (∀ ch : Char, 0x20 ≤ ch.toNat → ch.toNat ≤ 0x7e → Text.isGlyphless ch = false) ∧
    ∀ steps, chars.length ≤ steps →
      Position.split (Position.byteLength chars) steps chars = some (split chars) := by
  refine ⟨fun items => split_eq_ok_iff, fun items h => ⟨h.takesRuns, fun others hothers => ?_⟩,
    fun fault => split_eq_error_iff, message_noValue, message_noTag, Text.unquote?_quoted,
    Text.quoted_injective, fun ch => Text.quoted_eq_self, fun ch => Text.isGlyphless_eq_false_of_ascii,
    fun steps hsteps => ?_⟩
  · have hsplit := split_eq_ok_iff.mpr hothers
    rw [split_eq_ok_iff.mpr h] at hsplit
    exact (Except.ok.inj hsplit).symm
  · rw [Position.split_eq hsteps le_rfl, Nat.sub_self, split]

theorem split_first_violation_accented :
    let items : List Item := [⟨.p, ['0', '0', '7']⟩, ⟨.c, ['1', '0']⟩]
    let spelled := "p007c10".toList
    let accented := "p12é4".toList
    (Spells items spelled ∧ TakesRuns items ∧ ∀ others, Spells others spelled → others = items) ∧
    (split accented = .error (.noTag 3 'é') ∧
      ∃ front, BreaksAt accented front 'é' ∧ (front.flatMap String.utf8EncodeChar).length = 3) ∧
    (Text.isGlyphless 'é' = false ∧ 'é' ≠ '\x27' ∧ 'é' ≠ '\\') ∧
    (Refusal.malformedText (.noTag 3 'é')).message =
      "malformed proof text: expected a tag at offset 3, found 'é'" ∧
    Text.quoted '\n' = "'\\n'" ∧ Text.unquote? "'\\n'" = some '\n' ∧
    (0x20 ≤ 'x'.toNat ∧ 'x'.toNat ≤ 0x7e ∧ Text.isGlyphless 'x' = false) ∧
    accented.length ≤ 5 ∧
      Position.split (Position.byteLength accented) 5 accented = some (split accented) := by
  intro items spelled accented
  obtain ⟨-, hunique, -⟩ := split_first_violation spelled
  obtain ⟨-, -, herror, -, hmessage, hread, -, hself, hascii, hends⟩ := split_first_violation accented
  have hspells : Spells items spelled := split_eq_ok_iff.mp (by decide +kernel)
  have hsplit : split accented = .error (.noTag 3 'é') := by decide +kernel
  have hlength : accented.length ≤ 5 := by decide
  have hglyph : Text.isGlyphless 'é' = false ∧ 'é' ≠ '\x27' ∧ 'é' ≠ '\\' := by decide +kernel
  have hshown : Text.quoted 'é' = "'é'" := hself 'é' hglyph.1 hglyph.2.1 hglyph.2.2
  have hnewline : Text.quoted '\n' = "'\\n'" := by decide +kernel
  have hletter : 0x20 ≤ 'x'.toNat ∧ 'x'.toNat ≤ 0x7e := by decide
  refine ⟨⟨hspells, hunique items hspells⟩, ⟨hsplit, ?_⟩, hglyph, ?_, hnewline, ?_,
    ⟨hletter.1, hletter.2, hascii 'x' hletter.1 hletter.2⟩, hlength, hends 5 hlength⟩
  · obtain ⟨front, ch, hbreaks, ⟨tag, -, hfault⟩ | ⟨-, hfault⟩⟩ := (herror _).mp hsplit
    · cases hfault
    · obtain ⟨hoffset, rfl⟩ := TextFault.noTag.inj hfault
      exact ⟨front, hbreaks, hoffset.symm⟩
  · rw [hmessage, hshown]
    decide +kernel
  · rw [← hnewline, hread]

end SecretTally.Item
