import SecretTally.Number.Decimal

/-! The command line of a sample election. Options are read from left to right; the first argument
that does not fit ends the reading, and so does a request for help. -/

namespace SecretTally

structure Options where
  voters : Nat
  bits : Nat
  seed : Option Nat
deriving DecidableEq

inductive Setting where
  | voters
  | bits
  | seed
deriving DecidableEq

inductive Request where
  | run (options : Options)
  | help
  | misuse
deriving DecidableEq

namespace Setting

def ofName? : List Char → Option Setting
  | ['v', 'o', 't', 'e', 'r', 's'] => some .voters
  | ['b', 'i', 't', 's'] => some .bits
  | ['s', 'e', 'e', 'd'] => some .seed
  | _ => none

def assign (setting : Setting) (value : Nat) (o : Options) : Options :=
  match setting with
  | .voters => { o with voters := value }
  | .bits => { o with bits := value }
  | .seed => { o with seed := some value }

end Setting

namespace Options

def standard : Options := ⟨10, 256, none⟩

def word? (text : List Char) : Option Nat :=
  let digits := if text.head? = some '+' then text.tail else text
  (Decimal.parse? digits).filter (· < Decimal.wordLimit)

def assign? (given : List Setting) (o : Options) (setting : Setting) (text : List Char) :
    Option Options :=
  if setting ∈ given then none else (word? text).map fun value => setting.assign value o

/-- An option takes its value from behind an equals sign or from the next argument, which then must
not begin with a hyphen. Two hyphens alone end the options. -/
def readFrom (given : List Setting) (o : Options) : List (List Char) → Request
  | [] => .run o
  | ['-', '-'] :: rest => if rest = [] then .run o else .misuse
  | ['-', '-', 'h', 'e', 'l', 'p'] :: _ => .help
  | ('-' :: '-' :: text) :: rest =>
    let name := text.takeWhile (· ≠ '=')
    match Setting.ofName? name with
    | none => .misuse
    | some setting =>
      match text.dropWhile (· ≠ '=') with
      | _ :: value =>
        match assign? given o setting value with
        | some o => readFrom (setting :: given) o rest
        | none => .misuse
      | [] =>
        match rest with
        | [] => .misuse
        | value :: rest =>
          if value.head? = some '-' then .misuse
          else
            match assign? given o setting value with
            | some o => readFrom (setting :: given) o rest
            | none => .misuse
  | ('-' :: 'h' :: _) :: _ => .help
  | _ => .misuse

def read (args : List String) : Request := readFrom [] standard (args.map String.toList)

end Options
end SecretTally
