import TextHarvest.Text.Lines
import TextHarvest.Xml.Fault

/-! # Entity and character references

`resolve` replaces the references in an attribute value by the characters they stand for: the five predefined
entities, and characters by decimal or hexadecimal number. Everything else in a value stands for itself; line breaks
are not changed.
-/

namespace TextHarvest.Xml

/-- The value of a digit in the given base, up to sixteen. -/
def digit? (base : Nat) (c : Char) : Option Nat :=
  let value :=
    if '0' ≤ c ∧ c ≤ '9' then c.toNat - 48
    else if 'a' ≤ c ∧ c ≤ 'f' then c.toNat - 87
    else if 'A' ≤ c ∧ c ≤ 'F' then c.toNat - 55
    else base
  if value < base then some value else none

/-- Read digits after `value`; the result must fit in 32 bits at every step. -/
def readDigits (base : Nat) (value : Nat) : List Char → Except NumberFault Nat
  | [] => .ok value
  | c :: rest =>
    match digit? base c with
    | none => .error .badDigit
    | some digit =>
      if base * value + digit < 0x100000000 then readDigits base (base * value + digit) rest else .error .tooLarge

def readNumber (base : Nat) (digits : List Char) : Except NumberFault Nat :=
  if digits = [] then .error .empty else readDigits base 0 digits

/-- The code that a character reference spells after its number sign: hexadecimal after a small `x`. -/
def referenceCode (spelling : List Char) : Except ReferenceFault Nat :=
  let (base, digits) := match spelling with
    | 'x' :: rest => (16, rest)
    | _ => (10, spelling)
  if digits.head? = some '+' ∨ digits.head? = some '-' then .error .signed
  else
    match readNumber base digits with
    | .ok code => .ok code
    | .error fault => .error (.number fault)

def referenceCharacter (spelling : List Char) : Except ReferenceFault Char :=
  match referenceCode spelling with
  | .error fault => .error fault
  | .ok code =>
    if code = 0 then .error .null
    else if valid : code.isValidChar then .ok (Char.ofNatAux code valid)
    else .error (.noCharacter code)

def entity? (name : List Char) : Option Char :=
  if name = ['l', 't'] then some '<'
  else if name = ['g', 't'] then some '>'
  else if name = ['a', 'm', 'p'] then some '&'
  else if name = ['a', 'p', 'o', 's'] then some '\''
  else if name = ['q', 'u', 'o', 't'] then some '"'
  else none

/-- The name of a reference after its ampersand: what stands before the semicolon. Another ampersand may not come
first. -/
def referenceName? : List Char → Option (List Char)
  | [] => none
  | c :: rest =>
    if c = ';' then some []
    else if c = '&' then none
    else (referenceName? rest).map (c :: ·)

/-- The character that a reference stands for, where its name starts at byte `offset` of the value. -/
def referenced (offset : Nat) (name : List Char) : Except ValueFault Char :=
  match name with
  | '#' :: spelling =>
    match referenceCharacter spelling with
    | .ok c => .ok c
    | .error fault => .error (.reference fault)
  | _ =>
    match entity? name with
    | some c => .ok c
    | none => .error (.unknownEntity offset (offset + Text.byteLength name) (String.ofList name))

/-- Resolve the references of the rest of a value, which starts at byte `offset` and of which `pending` characters
belong to a reference that is done; the value has `size` bytes. -/
def resolveFrom (size : Nat) : Nat → Nat → List Char → Except ValueFault (List Char)
  | _, _, [] => .ok []
  | pending + 1, offset, c :: rest => resolveFrom size pending (offset + c.utf8Size) rest
  | 0, offset, c :: rest =>
    if c = '&' then
      match referenceName? rest with
      | none => .error (.unterminated offset size)
      | some name =>
        match referenced (offset + 1) name with
        | .error fault => .error fault
        | .ok resolved =>
          match resolveFrom size (name.length + 1) (offset + 1) rest with
          | .error fault => .error fault
          | .ok value => .ok (resolved :: value)
    else
      match resolveFrom size 0 (offset + c.utf8Size) rest with
      | .error fault => .error fault
      | .ok value => .ok (c :: value)

/-- The text that an attribute value stands for. -/
def resolve (value : List Char) : Except ValueFault (List Char) :=
  resolveFrom (Text.byteLength value) 0 0 value

end TextHarvest.Xml
