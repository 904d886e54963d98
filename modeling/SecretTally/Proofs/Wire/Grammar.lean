import Mathlib
import SecretTally.Proofs.Wire.Position
import SecretTally.Proofs.Wire.RoundTrip

/-! The grammar of a proof's text. The texts that are read are those that spell a well-formed proof
with runs of digits of any length; and what is read prints without their superfluous zeros. -/

noncomputable section
namespace SecretTally

theorem digits_of_readRun {tag : Tag} {bound : ℕ} {items : List Item} {values : List ℕ}
    (h : readRun tag bound items = .ok values) :
    items = (items.map Item.digits).map (Item.mk tag) ∧
      values = (items.map Item.digits).map Decimal.value := by
  rw [readRun_eq_ok_iff] at h
  induction h with
  | nil => exact ⟨rfl, rfl⟩
  | @cons item v items values hread _ ih =>
    obtain ⟨rfl, hparse, -⟩ := Item.read_eq_ok_iff.mp hread
    obtain ⟨-, rfl, -⟩ := Decimal.parse?_eq_some_iff.mp hparse
    rw [List.map_cons, List.map_cons, List.map_cons, ← ih.1, ← ih.2]
    exact ⟨rfl, rfl⟩

/-- The numbers of a proof's text, as its runs of digits. -/
structure Numerals where
  p : List Char
  y : List (List Char)
  z : List (List Char)
  s : List (List Char)
  c : List (List Char)

namespace Numerals

def all (n : Numerals) : List (List Char) := n.p :: (n.y ++ n.z ++ n.s ++ n.c)

def text (n : Numerals) : List Char :=
  'p' :: n.p ++ (n.y.flatMap ('y' :: ·) ++ n.z.flatMap ('z' :: ·) ++ n.s.flatMap ('s' :: ·)
    ++ n.c.flatMap ('c' :: ·))

def proof (n : Numerals) : MembershipProof :=
  ⟨Decimal.value n.p, (Decimal.value n.p - 1) / 2, n.y.map Decimal.value, n.z.map Decimal.value,
    n.s.map Decimal.value, n.c.map Decimal.value⟩

def trimmed (n : Numerals) : Numerals :=
  ⟨Decimal.trim n.p, n.y.map Decimal.trim, n.z.map Decimal.trim, n.s.map Decimal.trim,
    n.c.map Decimal.trim⟩

structure Proper (n : Numerals) : Prop where
  numeral : ∀ digits ∈ n.all, Decimal.IsNumeral digits
  wellFormed : n.proof.WellFormed

def items (n : Numerals) : List Item :=
  ⟨.p, n.p⟩ :: (n.y.map (Item.mk .y) ++ n.z.map (Item.mk .z) ++ n.s.map (Item.mk .s)
    ++ n.c.map (Item.mk .c))

variable {n : Numerals} {proof : MembershipProof} {text : List Char}

theorem text_eq (n : Numerals) : n.text = n.items.flatMap Item.text := by
  simp only [items, List.flatMap_cons, List.flatMap_append, List.flatMap_map]
  rfl

theorem digits_items (n : Numerals) : n.items.map Item.digits = n.all := by
  simp only [items, all, List.map_cons, List.map_append, List.map_map, Function.comp_def, List.map_id']

theorem items_trimmed (n : Numerals) :
    n.trimmed.items = n.items.map fun item => ⟨item.tag, Decimal.trim item.digits⟩ := by
  simp only [items, trimmed, List.map_cons, List.map_append, List.map_map, Function.comp_def]

theorem proper_items (h : ∀ digits ∈ n.all, Decimal.IsNumeral digits) :
    ∀ item ∈ n.items, item.Proper := by
  rw [← digits_items, List.forall_mem_map] at h
  exact fun item hitem => Item.proper_iff.mpr (h item hitem)

theorem Proper.ascii_text (h : n.Proper) : ∀ c ∈ n.text, c.toNat < 128 := by
  rw [text_eq]
  exact Item.ascii_flatMap_text (proper_items h.numeral)

theorem exists_of_readFrom {first : Item} {y z s c : List Item} (h : proof.ReadFrom first y z s c) :
    ∃ n : Numerals, n.items = first :: (y ++ z ++ s ++ c) ∧ n.proof = proof := by
  obtain ⟨htag, hparse, -⟩ := readPrime_eq_ok_iff.mp h.prime
  obtain ⟨-, hvalue, -⟩ := Decimal.parse?_eq_some_iff.mp hparse
  obtain ⟨hy, hvalue_y⟩ := digits_of_readRun h.read_y
  obtain ⟨hz, hvalue_z⟩ := digits_of_readRun h.read_z
  obtain ⟨hs, hvalue_s⟩ := digits_of_readRun h.read_s
  obtain ⟨hc, hvalue_c⟩ := digits_of_readRun h.read_c
  refine ⟨⟨first.digits, y.map Item.digits, z.map Item.digits, s.map Item.digits,
    c.map Item.digits⟩, ?_, ?_⟩
  · rw [items, ← hy, ← hz, ← hs, ← hc, ← htag]
  · rw [Numerals.proof, ← hvalue_y, ← hvalue_z, ← hvalue_s, ← hvalue_c, hvalue, ← h.half]

theorem map_ofNat_value {tag : Tag} {runs : List (List Char)}
    (h : ∀ digits ∈ runs, Decimal.IsNumeral digits) :
    (runs.map Decimal.value).map (Item.ofNat tag) = (runs.map Decimal.trim).map (Item.mk tag) := by
  rw [List.map_map, List.map_map]
  refine List.map_congr_left fun digits hmem => ?_
  exact congrArg (Item.mk tag) (Decimal.print_value (h digits hmem))

theorem Proper.items_proof (h : n.Proper) : n.proof.items = n.trimmed.items := by
  have hnumeral := h.numeral
  simp only [all, List.forall_mem_cons, List.forall_mem_append] at hnumeral
  obtain ⟨hp, ⟨⟨hy, hz⟩, hs⟩, hc⟩ := hnumeral
  simp only [MembershipProof.items, items, Numerals.proof, trimmed, map_ofNat_value hy,
    map_ofNat_value hz, map_ofNat_value hs, map_ofNat_value hc, Item.ofNat, Decimal.print_value hp]

theorem Proper.print_proof (h : n.Proper) : n.proof.print = n.trimmed.text := by
  rw [MembershipProof.print_eq, h.items_proof, text_eq]

theorem Proper.split_text (h : n.Proper) : Item.split n.text = .ok n.items :=
  Item.split_eq_ok_iff.mpr ⟨proper_items h.numeral, n.text_eq.symm⟩

theorem Proper.print_proof_eq_iff (h : n.Proper) :
    n.proof.print = n.text ↔ ¬ ∃ digits ∈ n.all, ∃ c rest, digits = '0' :: c :: rest := by
  have hitems : n.proof.print = n.text ↔ n.trimmed.items = n.items := by
    constructor
    · intro heq
      have hsplit := n.proof.split_print
      rw [heq, h.split_text, h.items_proof, Except.ok.injEq] at hsplit
      exact hsplit.symm
    · intro heq
      rw [h.print_proof, text_eq, heq, text_eq]
  have htrim : n.trimmed.items = n.items ↔ ∀ digits ∈ n.all, Decimal.trim digits = digits := by
    rw [items_trimmed, ← digits_items, List.forall_mem_map]
    constructor
    · intro heq item hitem
      have hsame := List.map_inj_left.mp (heq.trans (List.map_id n.items).symm) item hitem
      exact congrArg Item.digits hsame
    · intro hdigits
      refine (List.map_congr_left fun item hitem => ?_).trans (List.map_id n.items)
      rw [hdigits item hitem, id]
  rw [hitems, htrim, not_exists]
  exact forall_congr' fun digits => by rw [Decimal.trim_eq_self_iff, not_and]

theorem Proper.parse_text (h : n.Proper) : MembershipProof.parse n.text = .ok n.proof :=
  bind_eq_ok.mpr ⟨n.items, h.split_text, MembershipProof.ofItems_of_readFrom
    (h.wellFormed.readFrom h.numeral rfl rfl rfl rfl rfl)⟩

theorem parse_eq_ok_iff : MembershipProof.parse text = .ok proof ↔
    ∃ n : Numerals, n.Proper ∧ n.text = text ∧ n.proof = proof := by
  constructor
  · intro h
    obtain ⟨items, hsplit, hitems⟩ := bind_eq_ok.mp h
    obtain ⟨hproper, htext⟩ := Item.split_eq_ok_iff.mp hsplit
    obtain ⟨first, y, z, s, c, rfl, hread⟩ := MembershipProof.exists_readFrom hitems
    obtain ⟨n, hn, rfl⟩ := exists_of_readFrom hread
    rw [← hn] at hproper htext
    refine ⟨n, ⟨?_, MembershipProof.wellFormed_of_parse h⟩, n.text_eq.trans htext, rfl⟩
    rw [← digits_items, List.forall_mem_map]
    exact fun item hitem => Item.proper_iff.mp (hproper item hitem)
  · rintro ⟨n, h, rfl, rfl⟩
    exact h.parse_text

theorem parseBytes_eq_ok_iff {bytes : List UInt8} : MembershipProof.parseBytes bytes = .ok proof ↔
    ∃ n : Numerals, n.Proper ∧ n.text.flatMap String.utf8EncodeChar = bytes ∧ n.proof = proof := by
  have hdecode : MembershipProof.parseBytes bytes = .ok proof ↔
      ∃ text, Utf8.decode bytes = .ok text ∧ MembershipProof.parse text = .ok proof := by
    unfold MembershipProof.parseBytes
    cases Utf8.decode bytes <;> simp
  rw [hdecode]
  constructor
  · rintro ⟨text, htext, hparse⟩
    obtain ⟨n, h, rfl, rfl⟩ := parse_eq_ok_iff.mp hparse
    exact ⟨n, h, ((Utf8.decode_eq_ok_iff_of_ascii h.ascii_text).mp htext).symm, rfl⟩
  · rintro ⟨n, h, rfl, rfl⟩
    exact ⟨n.text, Utf8.decode_utf8 h.ascii_text, h.parse_text⟩

end Numerals

namespace MembershipProof

/-- Bytes are read exactly if they spell a well-formed proof, and then as that proof. It prints
without superfluous zeros, hence as the same bytes if there were none. All other bytes are malformed,
and counting bytes and items instead of taking the text apart comes to the same without ever leaving
the text. -/
theorem parseBytes_decides_grammar (bytes : List UInt8) :
    (∀ proof : MembershipProof, parseBytes bytes = .ok proof ↔
      ∃ n : Numerals, n.Proper ∧ n.text.flatMap String.utf8EncodeChar = bytes ∧ n.proof = proof) ∧
    (∀ n : Numerals, n.Proper → n.text.flatMap String.utf8EncodeChar = bytes →
      n.proof.print = n.trimmed.text ∧
      (n.proof.print.flatMap String.utf8EncodeChar = bytes ↔
        ¬ ∃ digits ∈ n.all, ∃ c rest, digits = '0' :: c :: rest)) ∧
    ((¬ ∃ n : Numerals, n.Proper ∧ n.text.flatMap String.utf8EncodeChar = bytes) →
      ∃ fault : TextFault, parseBytes bytes = .error fault) ∧
    Position.parseBytes bytes = some (parseBytes bytes) := by
  refine ⟨fun proof => Numerals.parseBytes_eq_ok_iff, fun n h hbytes => ⟨h.print_proof, ?_⟩,
    fun hnone => ?_, Position.parseBytes_eq bytes⟩
  · rw [← h.print_proof_eq_iff, ← hbytes]
    constructor
    · intro heq
      have hdecode := Utf8.decode_utf8 n.proof.ascii_print
      rw [heq, Utf8.decode_utf8 h.ascii_text] at hdecode
      exact (Except.ok.inj hdecode).symm
    · exact fun heq => heq ▸ rfl
  · cases hparse : parseBytes bytes with
    | error fault => exact ⟨fault, rfl⟩
    | ok proof =>
      obtain ⟨n, h, hbytes, -⟩ := Numerals.parseBytes_eq_ok_iff.mp hparse
      exact absurd ⟨n, h, hbytes⟩ hnone

theorem parseBytes_decides_grammar_padded :
    let n : Numerals := ⟨['0', '2', '3'], [['4'], ['0', '8']], [['2'], ['1', '6']],
      [['0'], ['1', '0']], [['0', '0', '3'], ['7']]⟩
    let bytes : List UInt8 := "p023y4y08z2z16s0s10c003c7".toList.flatMap String.utf8EncodeChar
    let accented : List UInt8 := "p23y4é".toList.flatMap String.utf8EncodeChar
    parseBytes bytes = .ok ⟨23, 11, [4, 8], [2, 16], [0, 10], [3, 7]⟩ ∧
      n.proof.print = "p23y4y8z2z16s0s10c3c7".toList ∧
      n.proof.print.flatMap String.utf8EncodeChar ≠ bytes ∧
      ∃ fault : TextFault, parseBytes accented = .error fault := by
  intro n bytes accented
  have hproper : n.Proper :=
    ⟨by decide, ⟨by decide +kernel, by decide +kernel, by decide +kernel, rfl, rfl, rfl, rfl,
      by decide +kernel, by decide +kernel, by decide +kernel, by decide +kernel⟩⟩
  obtain ⟨haccepts, hprint, -⟩ := parseBytes_decides_grammar bytes
  obtain ⟨htrimmed, hsame⟩ := hprint n hproper rfl
  refine ⟨(haccepts _).mpr ⟨n, hproper, rfl, by decide +kernel⟩, htrimmed, fun heq => ?_, ?_⟩
  · exact hsame.mp heq ⟨['0', '2', '3'], by decide, '2', ['3'], rfl⟩
  · obtain ⟨haccepts, -, hrejects, -⟩ := parseBytes_decides_grammar accented
    have hfault : (parseBytes accented).toOption = none := by decide +kernel
    refine hrejects fun ⟨n, hproper, hbytes⟩ => ?_
    rw [(haccepts n.proof).mpr ⟨n, hproper, hbytes, rfl⟩] at hfault
    cases hfault

end MembershipProof
end SecretTally

end
