import SecretTally.Refusal

/-! Items of a proof's text: a tag with a run of digits. Splitting a text takes every run as long as it
can and stops at the first place where no item goes on. -/

namespace SecretTally

structure Item where
  tag : Tag
  digits : List Char
deriving DecidableEq

namespace Item

def text (item : Item) : List Char := item.tag.letter :: item.digits

/-- Splits a text that begins at byte `offset`. Every character of an item is one byte. -/
def splitFrom (offset : Nat) : List Char → Except TextFault (List Item)
  | [] => .ok []
  | ch :: rest =>
    match Tag.ofLetter? ch with
    | none => .error (.noTag offset ch)
    | some tag =>
      let digits := rest.takeWhile Char.isDigit
      if digits = [] then .error (.noValue tag offset)
      else (⟨tag, digits⟩ :: ·) <$>
        splitFrom (offset + 1 + digits.length) (rest.dropWhile Char.isDigit)
termination_by text => text.length
decreasing_by
  have := (List.dropWhile_sublist Char.isDigit (l := rest)).length_le
  simp only [List.length_cons]
  omega

def split (text : List Char) : Except TextFault (List Item) := splitFrom 0 text

end Item
end SecretTally
