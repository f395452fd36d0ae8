import AppletHost.Json.Reader

/-!
# Records in a text

A record is read field by field off the text of an object, or of an array of its fields in order. The
reading ends at the first thing that is wrong, and what it is decides the fault: the text is no JSON
there (`malformed`), or the JSON is not that of the record (`mismatched`), for a field that has
another kind of value, that comes twice or that is missing. Values of fields that the record does not
know are passed over.
-/

namespace AppletHost.Json

/-- Why a text is not that of a record. -/
inductive RecordFault where
  | malformed
  | mismatched
deriving DecidableEq, Repr, Inhabited

/-- The values that a field takes. -/
inductive FieldKind where
  | text
  | optionalText
  | any
deriving DecidableEq, Repr, Inhabited

/-- A field of a record. -/
structure FieldSpec where
  name : String
  kind : FieldKind
  /-- The value of the field when it is missing, if it may be. -/
  fallback : Option Value := none
deriving Repr, Inhabited

/-- A reader that takes a piece off the front of the text. -/
abbrev RecordReader (α : Type) := StateT (List Char) (Except RecordFault) α

namespace RecordReader

/-- The reading ends with a fault. -/
def fail {α : Type} (fault : RecordFault) : RecordReader α := fun _ => .error fault

/-- Takes off a piece that has to be JSON. -/
def piece {α : Type} (read? : List Char → Option (α × List Char)) : RecordReader α := fun cs =>
  match read? cs with
  | some reading => .ok reading
  | none => .error .malformed

/-- The text from the next token on. -/
def peek : RecordReader (List Char) := fun cs => .ok (skipBlanks cs, skipBlanks cs)

/-- Takes off one character that has to come next, after blanks. -/
def symbol (c : Char) : RecordReader Unit := fun cs =>
  match skipBlanks cs with
  | d :: rest => if d = c then .ok ((), rest) else .error .malformed
  | [] => .error .malformed

/-- Takes a record off a whole text, after which nothing but blanks follows. -/
def whole {α : Type} (reader : RecordReader α) (text : String) : Except RecordFault α :=
  match reader text.toList with
  | .error fault => .error fault
  | .ok (a, rest) => if skipBlanks rest = [] then .ok a else .error .malformed

end RecordReader

open RecordReader

/-! ## Passing over a value -/

/-- What follows a string, from behind its opening quote. -/
def skipString : List Char → Option (List Char)
  | [] => none
  | '"' :: rest => some rest
  | '\\' :: 'u' :: a :: b :: c :: d :: rest =>
    if [a, b, c, d].all fun digit => (hexValue? digit).isSome then skipString rest else none
  | '\\' :: c :: rest => if "\"\\/bfnrt".toList.contains c then skipString rest else none
  | c :: rest => if c.toNat < 0x20 then none else skipString rest

/-- What follows a number, however large. -/
def skipNumber (cs : List Char) : Option (List Char) := do
  let unsigned := match cs with
    | '-' :: cs => cs
    | cs => cs
  let (_, afterWhole) ← wholeDigits? unsigned
  let (_, afterPlaces) ← fraction? afterWhole
  let (_, rest) ← exponent? afterPlaces
  some rest

/-- What follows a literal, a string or a number. -/
def skipScalar : List Char → Option (List Char)
  | '"' :: quoted => skipString quoted
  | 'n' :: cs => Text.startsWith? "ull".toList cs
  | 't' :: cs => Text.startsWith? "rue".toList cs
  | 'f' :: cs => Text.startsWith? "alse".toList cs
  | cs => skipNumber cs

/-- What follows a field name and its colon. -/
def skipName (cs : List Char) : Option (List Char) :=
  match skipBlanks cs with
  | '"' :: quoted => do
    match skipBlanks (← skipString quoted) with
    | ':' :: rest => some rest
    | _ => none
  | _ => none

mutual

/-- What follows a value, however deep it nests. -/
def skipValue : (fuel : Nat) → List Char → Option (List Char)
  | 0, _ => none
  | fuel + 1, cs =>
    match skipBlanks cs with
    | '[' :: rest =>
      match skipBlanks rest with
      | ']' :: rest => some rest
      | rest => skipItems fuel rest
    | '{' :: rest =>
      match skipBlanks rest with
      | '}' :: rest => some rest
      | rest => skipFields fuel rest
    | cs => skipScalar cs

/-- What follows the items of an array. -/
def skipItems : (fuel : Nat) → List Char → Option (List Char)
  | 0, _ => none
  | fuel + 1, cs => do
    match skipBlanks (← skipValue fuel cs) with
    | ']' :: rest => some rest
    | ',' :: rest => skipItems fuel rest
    | _ => none

/-- What follows the fields of an object. -/
def skipFields : (fuel : Nat) → List Char → Option (List Char)
  | 0, _ => none
  | fuel + 1, cs => do
    match skipBlanks (← skipValue fuel (← skipName cs)) with
    | '}' :: rest => some rest
    | ',' :: rest => skipFields fuel rest
    | _ => none

end

/-- Passes over a value; two steps for every character are enough. -/
def passOver : RecordReader Unit := piece fun cs =>
  (skipValue (2 * cs.length + 2) cs).map fun rest => ((), rest)

/-! ## Reading a field -/

/-- What is wrong where a string or an object is wanted and something else stands. -/
def misfit : List Char → RecordFault
  | '[' :: _ => .mismatched
  | '{' :: _ => .mismatched
  | cs => if (scalar? cs).isSome then .mismatched else .malformed

/-- Reads a string. -/
def readText : RecordReader Value := do
  match ← peek with
  | '"' :: _ => piece scalar?
  | cs => fail (misfit cs)

/-- Reads the value of a field; a record itself is one level of nesting. -/
def FieldKind.read : FieldKind → RecordReader Value
  | .text => readText
  | .optionalText => do
    match ← peek with
    | 'n' :: _ => piece scalar?
    | _ => readText
  | .any => piece fun cs => (value? (maxDepth - 1) cs).map fun t => (t.value, t.rest)

/-! ## Reading a record -/

/-- The values of all fields, from those that were read. -/
def complete (specs : List FieldSpec) (found : List (String × Value)) :
    RecordReader (List (String × Value)) :=
  specs.mapM fun spec =>
    match (found.lookup spec.name).orElse fun _ => spec.fallback with
    | some v => pure (spec.name, v)
    | none => fail .mismatched

/-- Reads a field behind its name. -/
def readField (specs : List FieldSpec) (found : List (String × Value)) (name : String) :
    RecordReader (List (String × Value)) :=
  match specs.find? fun spec => spec.name == name with
  | none => do
    symbol ':'
    passOver
    return found
  | some spec =>
    if (found.lookup name).isSome then fail .mismatched
    else do
      symbol ':'
      return found ++ [(name, ← spec.kind.read)]

/-- Reads a field name, from behind its opening quote. -/
def readName : RecordReader String := piece fun cs =>
  (string? cs).map fun t => (String.ofList t.value, t.rest)

/-- Reads the fields of an object, the next of which starts here. -/
def readFields (specs : List FieldSpec) :
    (fuel : Nat) → List (String × Value) → RecordReader (List (String × Value))
  | 0, _ => fail .malformed
  | fuel + 1, found => do
    symbol '"'
    let name ← readName
    let found ← readField specs found name
    match ← peek with
    | '}' :: _ =>
      let fields ← complete specs found
      symbol '}'
      return fields
    | _ =>
      symbol ','
      readFields specs fuel found

/-- Reads the items of an array as fields; `first` tells that no item was read. -/
def readItems (first : Bool) (found : List (String × Value)) :
    List FieldSpec → RecordReader (List (String × Value))
  | [] => do
    symbol ']'
    return found
  | spec :: specs => do
    match first, ← peek with
    | _, ']' :: _ =>
      symbol ']'
      return found
    | true, _ =>
      readItems false (found ++ [(spec.name, ← spec.kind.read)]) specs
    | false, _ =>
      symbol ','
      match ← peek with
      | ']' :: _ => fail .malformed
      | _ => readItems false (found ++ [(spec.name, ← spec.kind.read)]) specs

/-- Reads a record. -/
def readRecord (specs : List FieldSpec) : RecordReader (List (String × Value)) := do
  match ← peek with
  | '{' :: _ =>
    symbol '{'
    match ← peek with
    | '}' :: _ =>
      let fields ← complete specs []
      symbol '}'
      return fields
    | cs => readFields specs cs.length []
  | '[' :: _ =>
    symbol '['
    complete specs (← readItems true [] specs)
  | cs => fail (misfit cs)

/-- Reads a record, or `null` for none. -/
def readOptional (specs : List FieldSpec) : RecordReader (Option (List (String × Value))) := do
  match ← peek with
  | 'n' :: _ =>
    let _ ← piece scalar?
    return none
  | _ => return some (← readRecord specs)

/-- The fields of the record that a whole text is. -/
def record (specs : List FieldSpec) (text : String) : Except RecordFault (List (String × Value)) :=
  (readRecord specs).whole text

/-- The fields of the record that a whole text is, none if it is `null`. -/
def optionalRecord (specs : List FieldSpec) (text : String) :
    Except RecordFault (Option (List (String × Value))) :=
  (readOptional specs).whole text

end AppletHost.Json
