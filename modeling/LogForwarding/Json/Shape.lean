/-
# Readers for the shapes of values

The values of a topology are strings, sequences, dictionaries, records, names
from a fixed list, and values that may be left out. A record is written as an
object, whose unknown members are skipped, or as an array of its fields in
order. A value of another type is a misfit as soon as its type is known:
strings, numbers and words are read for that, but not arrays and objects.

Key definitions: `Json.unexpected`, `Json.text`, `Json.sequence`,
`Json.dictionary`, `Json.Record`, `Json.Record.reader`, `Json.optional`,
`Json.pick`, `Json.choice`.
-/
import Std.Data.ExtTreeMap
import LogForwarding.Json.Skip

namespace LogForwarding.Json

/-- What the text begins with, after its blanks, where it is not what was expected. -/
def found (s : List Char) : Except ReadFault Found :=
  match s with
  | [] => .error .cutShort
  | '"' :: rest => (string rest).map (.string ·.value)
  | '[' :: _ => .ok .sequence
  | '\x7b' :: _ => .ok .map
  | 'n' :: rest => (word ['u', 'l', 'l'] rest).map fun _ => .null
  | 't' :: rest => (word ['r', 'u', 'e'] rest).map fun _ => .boolean true
  | 'f' :: rest => (word ['a', 'l', 's', 'e'] rest).map fun _ => .boolean false
  | c :: _ => if c = '-' ∨ c.isDigit then number s else .error .malformed

/-- The fault of a value that is not what was expected. -/
def unexpected (expected : String) (s : List Char) : ReadFault :=
  match found s with
  | .error fault => fault
  | .ok value => .misfit (.invalidType value expected)

/-- A string. -/
def text (expected : String) : Reader String := fun s =>
  match h : skipBlanks s with
  | '"' :: rest => (string rest).map (·.widen (Nat.le_of_lt (lt_of_skipBlanks h)))
  | other => .error (unexpected expected other)

/-- The word `null`, where nothing else may stand. -/
def null (expected : String) : Reader Unit := fun s =>
  match h : skipBlanks s with
  | 'n' :: rest =>
    match h' : word ['u', 'l', 'l'] rest with
    | .error fault => .error fault
    | .ok after =>
      .ok ⟨(), after, Nat.lt_of_le_of_lt (length_le_of_word h') (lt_of_skipBlanks h)⟩
  | other => .error (unexpected expected other)

/-- The value after a colon. -/
def afterColon {α : Type} (read : Reader α) : Reader α := fun s =>
  match colon s with
  | .error fault => .error fault
  | .ok mark => (read mark.rest).map (·.widen (Nat.le_of_lt mark.shorter))

/-- The elements of an array after one of them, and its end. -/
def moreElements {α : Type} (read : Reader α) (s : List Char) :
    Except ReadFault (Read (List α) s) :=
  match h : skipBlanks s with
  | [] => .error .cutShort
  | ']' :: after => .ok ⟨[], after, lt_of_skipBlanks h⟩
  | ',' :: rest =>
    have hrest := lt_of_skipBlanks h
    match read rest with
    | .error fault => .error fault
    | .ok element =>
      have helement := Nat.lt_trans element.shorter hrest
      match moreElements read element.rest with
      | .error fault => .error fault
      | .ok more => .ok ⟨element.value :: more.value, more.rest, Nat.lt_trans more.shorter helement⟩
  | _ :: _ => .error .malformed
termination_by s.length

/-- A sequence: an array of any length. -/
def sequence {α : Type} (read : Reader α) : Reader (List α) := fun s =>
  match h : skipBlanks s with
  | '[' :: rest =>
    have hrest : rest.length + 1 ≤ s.length := lt_of_skipBlanks h
    match h' : skipBlanks rest with
    | ']' :: after => .ok ⟨[], after, Nat.lt_trans (lt_of_skipBlanks h') hrest⟩
    | _ =>
      match read rest with
      | .error fault => .error fault
      | .ok first =>
        have hfirst := Nat.lt_trans first.shorter hrest
        (moreElements read first.rest).map fun more =>
          (more.map (first.value :: ·)).widen (Nat.le_of_lt hfirst)
  | other => .error (unexpected "a sequence" other)

/-- The members of an object from a key on, and its end. The draft takes up one member after the
other; `member` reads what follows a key. -/
def moreMembers {δ : Type} (member : String → δ → Reader δ) (draft : δ) (s : List Char) :
    Except ReadFault (Read δ s) :=
  match h : skipBlanks s with
  | [] => .error .cutShort
  | '"' :: rest =>
    have hrest := lt_of_skipBlanks h
    match string rest with
    | .error fault => .error fault
    | .ok key =>
      match member key.value draft key.rest with
      | .error fault => .error fault
      | .ok next =>
        have hnext := Nat.lt_trans next.shorter (Nat.lt_trans key.shorter hrest)
        match h' : skipBlanks next.rest with
        | [] => .error .cutShort
        | '\x7d' :: after => .ok ⟨next.value, after, Nat.lt_trans (lt_of_skipBlanks h') hnext⟩
        | ',' :: more =>
          have hmore := Nat.lt_trans (lt_of_skipBlanks h') hnext
          (moreMembers member next.value more).map (·.widen (Nat.le_of_lt hmore))
        | _ :: _ => .error .malformed
  | _ :: _ => .error .malformed
termination_by s.length

/-- The members of an object, after its opening brace, and its end. -/
def members {δ : Type} (member : String → δ → Reader δ) (draft : δ) : Reader δ := fun s =>
  match h : skipBlanks s with
  | '\x7d' :: after => .ok ⟨draft, after, lt_of_skipBlanks h⟩
  | _ => moreMembers member draft s

/-- A dictionary: an object whose keys are free. Of values under one key the last counts. -/
def dictionary {α : Type} (read : Reader α) : Reader (Std.ExtTreeMap String α) := fun s =>
  match h : skipBlanks s with
  | '\x7b' :: rest =>
    let entry (key : String) (draft : Std.ExtTreeMap String α) :=
      afterColon fun s => (read s).map (·.map (draft.insert key))
    (members entry ∅ rest).map (·.widen (Nat.le_of_lt (lt_of_skipBlanks h)))
  | other => .error (unexpected "a map" other)

/-- A field of a record, which is drafted as a `δ`. -/
structure RecordField (δ : Type) where
  /-- The key of the field. -/
  key : String
  /-- The draft has a value for the field. -/
  isSet : δ → Bool
  /-- Read a value for the field into the draft. -/
  read : δ → Reader δ

/-- How records of type `α` are read. -/
structure Record (δ α : Type) where
  /-- The name of the type. -/
  name : String
  /-- The draft without any field. -/
  blank : δ
  /-- The fields, in order. -/
  fields : List (RecordField δ)
  /-- The record of a draft; a field that is needed and not set, by position and key, is a
  misfit. -/
  finish : (Nat → String → Misfit) → δ → Except Misfit α

namespace Record

variable {δ α : Type}

/-- Read what follows a key. A known key must be new, which is found out before its value is
read; the value of an unknown one is skipped. -/
def member (r : Record δ α) (key : String) (draft : δ) : Reader δ := fun s =>
  match r.fields.find? (·.key == key) with
  | some field =>
    if field.isSet draft then .error (.misfit (.duplicateField key))
    else afterColon (field.read draft) s
  | none => (afterColon skipValue s).map (·.map fun _ => draft)

/-- The fields that an array gives, of those that are still to come. What is left is where the
array should end. -/
def elements (draft : δ) (isFirst : Bool) :
    List (RecordField δ) → (s : List Char) → Except ReadFault (δ × Left s)
  | [], s => .ok (draft, Left.all s)
  | field :: fields, s =>
    match h : skipBlanks s with
    | [] => .error .cutShort
    | ']' :: _ => .ok (draft, Left.all s)
    | c :: rest =>
      let start : Except ReadFault (Left s) :=
        if isFirst then .ok (Left.all s)
        else if c = ',' then .ok ⟨rest, Nat.le_of_lt (lt_of_skipBlanks h)⟩
        else .error .malformed
      match start with
      | .error fault => .error fault
      | .ok t =>
        match field.read draft t.1 with
        | .error fault => .error fault
        | .ok value =>
          (elements value.value false fields value.rest).map fun (draft, after) =>
            (draft, ⟨after.1, by have := value.shorter; have := after.2; have := t.2; omega⟩)

/-- The misfit of an array that ends before the field at the given position. -/
def tooShort (r : Record δ α) (position : Nat) : Misfit :=
  let count := r.fields.length
  .invalidLength position ("struct " ++ r.name ++ " with " ++ toString count ++
    (if count = 1 then " element" else " elements"))

/-- The record of a draft. -/
def complete (r : Record δ α) (absent : Nat → String → Misfit) (draft : δ) : Except ReadFault α :=
  (r.finish absent draft).mapError .misfit

/-- A record that is written as an array, after its bracket. -/
def ofArray (r : Record δ α) : Reader α := fun s =>
  match elements r.blank true r.fields s with
  | .error fault => .error fault
  | .ok (draft, left) =>
    match r.complete (fun position _ => r.tooShort position) draft with
    | .error fault => .error fault
    | .ok value =>
      match h : skipBlanks left.1 with
      | [] => .error .cutShort
      | ']' :: after => .ok ⟨value, after, Nat.lt_of_lt_of_le (lt_of_skipBlanks h) left.2⟩
      | _ :: _ => .error .malformed

/-- A record that is written as an object, after its brace. -/
def ofObject (r : Record δ α) : Reader α := fun s =>
  match members r.member r.blank s with
  | .error fault => .error fault
  | .ok draft =>
    (r.complete (fun _ key => .missingField key) draft.value).map fun value =>
      draft.map fun _ => value

/-- A record. -/
def reader (r : Record δ α) : Reader α := fun s =>
  match h : skipBlanks s with
  | '[' :: rest => (r.ofArray rest).map (·.widen (Nat.le_of_lt (lt_of_skipBlanks h)))
  | '\x7b' :: rest => (r.ofObject rest).map (·.widen (Nat.le_of_lt (lt_of_skipBlanks h)))
  | other => .error (unexpected ("struct " ++ r.name) other)

end Record

/-- A value or `null`. -/
def optional {α : Type} (read : Reader α) : Reader (Option α) := fun s =>
  match skipBlanks s with
  | 'n' :: _ => (null "null" s).map (·.map fun _ => none)
  | _ => (read s).map (·.map some)

/-- The value of a name among those that are named. -/
def pick {α : Type} (variants : List (String × α)) (name : String) : Except ReadFault α :=
  match variants.find? (·.1 == name) with
  | some variant => .ok variant.2
  | none => .error (.misfit (.unknownVariant name (variants.map Prod.fst)))

/-- One of the named values: its name, or an object with the name as key and `null` as value. -/
def choice {α : Type} (variants : List (String × α)) : Reader α := fun s =>
  match h : skipBlanks s with
  | [] => .error .cutShort
  | '"' :: rest => (named rest).map (·.widen (Nat.le_of_lt (lt_of_skipBlanks h)))
  | '\x7b' :: rest =>
    have hrest := lt_of_skipBlanks h
    match key rest with
    | .error fault => .error fault
    | .ok variant =>
      match afterColon (null "unit") variant.rest with
      | .error fault => .error fault
      | .ok unit =>
        have hunit := Nat.lt_trans unit.shorter (Nat.lt_trans variant.shorter hrest)
        match h' : skipBlanks unit.rest with
        | [] => .error .cutShort
        | '\x7d' :: after =>
          .ok ⟨variant.value, after, Nat.lt_trans (lt_of_skipBlanks h') hunit⟩
        | _ :: _ => .error .malformed
  | _ :: _ => .error .malformed
where
  /-- The value of a name, after its opening quote. -/
  named : Reader α := fun s =>
    match string s with
    | .error fault => .error fault
    | .ok name =>
      (pick variants name.value).map fun value => name.map fun _ => value
  /-- The value of a name that is a key; a key of another type breaks the grammar. -/
  key : Reader α := fun s =>
    match h : skipBlanks s with
    | [] => .error .cutShort
    | '"' :: rest => (named rest).map (·.widen (Nat.le_of_lt (lt_of_skipBlanks h)))
    | _ :: _ => .error .malformed

end LogForwarding.Json
