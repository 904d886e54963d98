/-! The letters that introduce a number in the text of a proof. -/

namespace SecretTally

inductive Tag where
  | p
  | y
  | z
  | s
  | c
deriving DecidableEq

namespace Tag

def letter : Tag → Char
  | .p => 'p'
  | .y => 'y'
  | .z => 'z'
  | .s => 's'
  | .c => 'c'

def ofLetter? : Char → Option Tag
  | 'p' => some .p
  | 'y' => some .y
  | 'z' => some .z
  | 's' => some .s
  | 'c' => some .c
  | _ => none

theorem ofLetter?_letter (tag : Tag) : ofLetter? tag.letter = some tag := by
  cases tag <;> rfl

theorem letter_inj {a b : Tag} (h : a.letter = b.letter) : a = b :=
  Option.some.inj (by rw [← ofLetter?_letter a, h, ofLetter?_letter b])

theorem letter_of_ofLetter? {ch : Char} {tag : Tag} (h : ofLetter? ch = some tag) :
    tag.letter = ch := by
  unfold ofLetter? at h
  split at h <;> cases h <;> rfl

theorem isDigit_letter (tag : Tag) : tag.letter.isDigit = false := by
  cases tag <;> rfl

end Tag
end SecretTally
