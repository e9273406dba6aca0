import LuaTyping.Json.Skip

/-!
# Reading JSON of a known shape

A record is written as an object with named members, or as a list of its
fields in declaration order.  An object may hold further members, which are
passed over; a list may leave out fields at its end.  A known member may be
given only once.

A value of another shape is refused.  Words, numbers and strings are read to
their end first, so a fault inside them is found before the shape is.
-/

namespace LuaTyping

namespace Json

/-- The fault of refusing a value, given the outcome of reading it. -/
def refusedAfter {α : Type} : Except Fault α → Fault
  | .ok _ => .wrongShape
  | .error fault => fault

/-- The fault of refusing the value at the start of a text. -/
def refusal : List Char → Fault
  | [] => .endOfText
  | 'n' :: text => refusedAfter (scanWord ['u', 'l', 'l'] text)
  | 't' :: text => refusedAfter (scanWord ['r', 'u', 'e'] text)
  | 'f' :: text => refusedAfter (scanWord ['a', 'l', 's', 'e'] text)
  | '"' :: text => refusedAfter (scanString text)
  | '-' :: text => refusedAfter (scanNumber ('-' :: text))
  | '[' :: _ | '\x7b' :: _ => .wrongShape
  | character :: text =>
      if isDigit character then refusedAfter (scanNumber (character :: text))
      else .malformed

/-- Read the key of an object member.  Only a string can be a key, so any
other value is malformed here rather than of the wrong shape. -/
def readKey (text : List Char) : Except Fault (String × List Char) :=
  match dropBlanks text with
  | '"' :: rest => scanString rest
  | rest => .error (unexpected rest)

/-- Read the word `null`. -/
def readNull (text : List Char) : Except Fault (List Char) :=
  match dropBlanks text with
  | 'n' :: rest => scanWord ['u', 'l', 'l'] rest
  | rest => .error (refusal rest)

/-- Read a whole number of at most 32 bits. -/
def readWord (text : List Char) : Except Fault (UInt32 × List Char) :=
  match dropBlanks text with
  | [] => .error .endOfText
  | character :: rest =>
      if character = '-' ∨ isDigit character then do
        let (number, rest) ← scanNumber (character :: rest)
        match number with
        | .whole value =>
            if value < UInt32.size then .ok (UInt32.ofNat value, rest)
            else .error .wrongShape
        | .other => .error .wrongShape
      else
        .error (refusal (character :: rest))

/-- The text at the next element of a list, or nothing at its end. -/
def nextElement (first : Bool) (text : List Char) :
    Except Fault (Option (List Char)) :=
  match dropBlanks text with
  | [] => .error .endOfText
  | ']' :: _ => .ok none
  | character :: rest =>
      if first then .ok (some (character :: rest))
      else if character = ',' then
        match dropBlanks rest with
        | [] => .error .endOfText
        | ']' :: _ => .error .malformed
        | rest => .ok (some rest)
      else .error .malformed

/-- Read the elements of a list up to its closing bracket.  Every element
takes at least one character, so the length of the text bounds their
number. -/
def readElements {α : Type}
    (read : List Char → Except Fault (α × List Char)) :
    Nat → Bool → List Char → Except Fault (List α × List Char)
  | 0, _, _ => .error .endOfText
  | steps + 1, first, text => do
      match ← nextElement first text with
      | none => .ok ([], text)
      | some text =>
          let (element, rest) ← read text
          let (elements, rest) ← readElements read steps false rest
          .ok (element :: elements, rest)

/-- Read a list. -/
def readList {α : Type} (read : List Char → Except Fault (α × List Char))
    (text : List Char) : Except Fault (List α × List Char) :=
  match dropBlanks text with
  | '[' :: rest => do
      let (elements, rest) ← readElements read (rest.length + 1) true rest
      let rest ← scanMark ']' rest
      .ok (elements, rest)
  | rest => .error (refusal rest)

/-- The key of the next member of an object and the text behind it, or nothing
at its end. -/
def nextKey (first : Bool) (text : List Char) :
    Except Fault (Option (String × List Char)) :=
  match dropBlanks text with
  | '\x7d' :: _ => .ok none
  | rest =>
      let atKey := if first then .ok rest else scanMark ',' rest
      match atKey with
      | .error fault => .error fault
      | .ok rest => do
          let (key, rest) ← readKey rest
          .ok (some (key, rest))

/-- One field of a record under construction. -/
structure Field (σ : Type) where
  name : String
  /-- Whether the field has been given a value. -/
  isSet : σ → Bool
  /-- Read a value for the field. -/
  read : σ → List Char → Except Fault (σ × List Char)

/-- Read fields by position, as far as the list goes. -/
def readPositions {σ : Type} : List (Field σ) → Bool → σ → List Char →
    Except Fault (σ × List Char)
  | [], _, record, text => .ok (record, text)
  | field :: fields, first, record, text => do
      match ← nextElement first text with
      | none => .ok (record, text)
      | some text =>
          let (record, rest) ← field.read record text
          readPositions fields false record rest

/-- Read fields by name, passing over unknown members. -/
def readMembers {σ : Type} (fields : List (Field σ)) :
    Nat → Bool → σ → List Char → Except Fault (σ × List Char)
  | 0, _, _, _ => .error .endOfText
  | steps + 1, first, record, text => do
      match ← nextKey first text with
      | none => .ok (record, text)
      | some (key, rest) =>
          match fields.find? (fun field => field.name == key) with
          | some field =>
              if field.isSet record then
                .error .wrongShape
              else
                let rest ← scanMark ':' rest
                let (record, rest) ← field.read record rest
                readMembers fields steps false record rest
          | none =>
              let rest ← scanMark ':' rest
              let rest ← skipValue rest
              readMembers fields steps false record rest

/-- Read a record in either layout.  The record is completed before its
closing bracket is read. -/
def readRecord {σ ρ : Type} (fields : List (Field σ)) (blank : σ)
    (complete : σ → Except Fault ρ) (text : List Char) :
    Except Fault (ρ × List Char) :=
  match dropBlanks text with
  | '[' :: rest => do
      let (record, rest) ← readPositions fields true blank rest
      let completed ← complete record
      let rest ← scanMark ']' rest
      .ok (completed, rest)
  | '\x7b' :: rest => do
      let (record, rest) ←
        readMembers fields (rest.length + 1) true blank rest
      let completed ← complete record
      let rest ← scanMark '\x7d' rest
      .ok (completed, rest)
  | rest => .error (refusal rest)

/-- Read a text that holds one value and nothing else. -/
def readAll {α : Type} (read : List Char → Except Fault (α × List Char))
    (text : String) : Except Fault α := do
  let (value, rest) ← read text.toList
  match dropBlanks rest with
  | [] => .ok value
  | _ => .error .malformed

end Json

end LuaTyping
