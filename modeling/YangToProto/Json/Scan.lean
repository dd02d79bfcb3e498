import YangToProto.Json.Fault
import YangToProto.Text.Digits

/-!
# Scanning JSON texts

A structure is read from a text in one pass, and the first fault stops, be it in the text or in
how a value fits. The pieces below take what they read from the front of the text. A value that
nobody wants is skipped: its text must be JSON, but its strings may hold lone surrogates, its
numbers may be out of range and it may nest to any depth.

Lists and objects are read by loops that are bounded by a number of rounds. The length of the
text is always enough, since each round takes a character.
-/

namespace YangToProto

/-- A reader takes what it reads from the front of a text. -/
abbrev Scan := StateT (List Char) (Except JsonFault)

namespace Scan

def unfinished {α : Type} (what : Unfinished) : Scan α := throw (.unfinished what)

def malformed {α : Type} (what : Malformed) : Scan α := throw (.malformed what)

def misfit {α : Type} (what : Misfit) : Scan α := throw (.misfit what)

def isSpace (c : Char) : Bool := c == ' ' || c == '\n' || c == '\t' || c == '\x0d'

def peek : Scan (Option Char) := fun text =>
  let rest := text.dropWhile isSpace
  .ok (rest.head?, rest)

def advance : Scan Unit := fun text => .ok ((), text.tail)

def letters : List Char → Scan Unit
  | [] => return
  | letter :: rest => fun text =>
    match text with
    | [] => .error (.unfinished .value)
    | c :: more => if c = letter then letters rest more else .error (.malformed .expectedLiteral)

/-! ## Strings -/

def hexNumber? (a b c d : Char) : Option Nat := Digits.number? 16 [a, b, c, d]

/-- The fault of a text that does not start with four hexadecimal digits: it ends too early if it
has fewer than four bytes. -/
def hexFault (text : List Char) : JsonFault :=
  if (String.ofList (text.take 4)).utf8ByteSize < 4 then .unfinished .string
  else .malformed .invalidEscape

def isHighSurrogate (n : Nat) : Bool := 0xD800 ≤ n && n ≤ 0xDBFF

def isLowSurrogate (n : Nat) : Bool := 0xDC00 ≤ n && n ≤ 0xDFFF

def escaped? : Char → Option Char
  | '"' => some '"'
  | '\\' => some '\\'
  | '/' => some '/'
  | 'b' => some '\x08'
  | 'f' => some '\x0c'
  | 'n' => some '\n'
  | 'r' => some '\x0d'
  | 't' => some '\t'
  | _ => none

/-- The rest of a string up to its closing quote, and what comes behind it. The characters read
so far are given in reverse. -/
def stringBody (read : List Char) : List Char → Except JsonFault (List Char × List Char)
  | [] => .error (.unfinished .string)
  | '"' :: rest => .ok (read.reverse, rest)
  | ['\\'] => .error (.unfinished .string)
  | '\\' :: 'u' :: a :: b :: c :: d :: rest =>
    match hexNumber? a b c d with
    | none => .error (hexFault (a :: b :: c :: d :: rest))
    | some high =>
      if isLowSurrogate high then .error (.malformed .loneSurrogate)
      else if isHighSurrogate high then
        match rest with
        | [] => .error (.unfinished .string)
        | ['\\'] => .error (.unfinished .string)
        | '\\' :: 'u' :: e :: f :: g :: h :: rest =>
          match hexNumber? e f g h with
          | none => .error (hexFault (e :: f :: g :: h :: rest))
          | some low =>
            if isLowSurrogate low then
              stringBody
                (Char.ofNat ((high - 0xD800) * 0x400 + (low - 0xDC00) + 0x10000) :: read) rest
            else .error (.malformed .loneSurrogate)
        | '\\' :: 'u' :: rest => .error (hexFault rest)
        | _ => .error (.malformed .unfinishedEscape)
      else stringBody (Char.ofNat high :: read) rest
  | '\\' :: 'u' :: rest => .error (hexFault rest)
  | '\\' :: c :: rest =>
    match escaped? c with
    | some plain => stringBody (plain :: read) rest
    | none => .error (.malformed .invalidEscape)
  | c :: rest =>
    if c.toNat < 0x20 then .error (.malformed .controlCharacter) else stringBody (c :: read) rest

def string : Scan String := fun text =>
  (stringBody [] text).map fun (body, rest) => (String.ofList body, rest)

def skipString : List Char → Except JsonFault (List Char)
  | [] => .error (.unfinished .string)
  | '"' :: rest => .ok rest
  | ['\\'] => .error (.unfinished .string)
  | '\\' :: 'u' :: a :: b :: c :: d :: rest =>
    match hexNumber? a b c d with
    | none => .error (hexFault (a :: b :: c :: d :: rest))
    | some _ => skipString rest
  | '\\' :: 'u' :: rest => .error (hexFault rest)
  | '\\' :: c :: rest =>
    match escaped? c with
    | some _ => skipString rest
    | none => .error (.malformed .invalidEscape)
  | c :: rest =>
    if c.toNat < 0x20 then .error (.malformed .controlCharacter) else skipString rest

/-! ## Numbers -/

def digitValue (c : Char) : Nat := c.toNat - 48

/-- The largest number of 64 bits. Digits enter a significand as long as it stays below. -/
def largestWord : Nat := UInt64.size - 1

/-- The significand with the digits at the front of a text as far as it fits a word; the count of
digits that entered it, and the text behind them. -/
def addDigits (significand count : Nat) : List Char → Nat × Nat × List Char
  | [] => (significand, count, [])
  | c :: rest =>
    if c.isDigit && significand * 10 + digitValue c ≤ largestWord then
      addDigits (significand * 10 + digitValue c) (count + 1) rest
    else (significand, count, c :: rest)

def powerOfTen (exponent : Nat) : Float := Float.ofScientific 1 false exponent

/-- The number divided by a power of ten in steps of at most `10 ^ 308`. A number that has become
zero stays zero, so few steps are enough. -/
def divide (number : Float) (exponent : Nat) : Nat → Float
  | 0 => number
  | steps + 1 =>
    if exponent ≤ 308 then number / powerOfTen exponent
    else if number == 0.0 then number
    else divide (number / powerOfTen 308) (exponent - 308) steps

/-- The floating-point number with the given significand and decimal exponent: the rounded
significand multiplied or divided by a rounded power. -/
def scaled (negative : Bool) (significand : Nat) (exponent : Int) : Except JsonFault Float :=
  let start := (UInt64.ofNat significand).toFloat
  let signed (x : Float) : Float := if negative then -x else x
  if 0 ≤ exponent then
    if exponent ≤ 308 then
      let result := start * powerOfTen exponent.toNat
      if result.isInf then .error (.malformed .numberOutOfRange) else .ok (signed result)
    else if start == 0.0 then .ok (signed start)
    else .error (.malformed .numberOutOfRange)
  else .ok (signed (divide start (-exponent).toNat 4))

def largestExponent : Nat := 0x7fffffff

def exponentPart (negative : Bool) (significand : Nat) (exponent : Int) (text : List Char) :
    Except JsonFault (JsonNumber × List Char) :=
  let (down, text) := match text with
    | '+' :: rest => (false, rest)
    | '-' :: rest => (true, rest)
    | _ => (false, text)
  match text with
  | [] => .error (.unfinished .value)
  | c :: _ =>
    if !c.isDigit then .error (.malformed .invalidNumber)
    else
      let digits := text.takeWhile Char.isDigit
      let rest := text.dropWhile Char.isDigit
      let power := digits.foldl (fun power c => power * 10 + digitValue c) 0
      if largestExponent < power then
        if significand ≠ 0 ∧ !down then .error (.malformed .numberOutOfRange)
        else .ok (.floating (if negative then -0.0 else 0.0), rest)
      else
        (scaled negative significand (if down then exponent - power else exponent + power)).map
          fun x => (.floating x, rest)

def afterFraction (negative : Bool) (significand : Nat) (exponent : Int) (text : List Char) :
    Except JsonFault (JsonNumber × List Char) :=
  match text with
  | 'e' :: rest => exponentPart negative significand exponent rest
  | 'E' :: rest => exponentPart negative significand exponent rest
  | _ => (scaled negative significand exponent).map fun x => (.floating x, text)

/-- A number from its fraction on, whose point is taken. Digits that no longer fit the
significand do not count. -/
def fraction (negative : Bool) (significand : Nat) (exponent : Int) (text : List Char) :
    Except JsonFault (JsonNumber × List Char) :=
  match text with
  | [] => .error (.unfinished .value)
  | c :: _ =>
    if !c.isDigit then .error (.malformed .invalidNumber)
    else
      let (significand, count, rest) := addDigits significand 0 text
      afterFraction negative significand (exponent - count) (rest.dropWhile Char.isDigit)

/-- A whole number as it is kept: a negative zero and what does not fit 64 bits are floating. -/
def wholeNumber (negative : Bool) (significand : Nat) : JsonNumber :=
  if negative then
    if significand = 0 ∨ 0x8000000000000000 < significand then
      .floating (-(UInt64.ofNat significand).toFloat)
    else .integer (-significand)
  else .integer significand

/-- A number behind the digits of its whole part, of which the given count did not fit the
significand. -/
def afterWhole (negative : Bool) (significand dropped : Nat) (text : List Char) :
    Except JsonFault (JsonNumber × List Char) :=
  match text with
  | '.' :: rest => fraction negative significand dropped rest
  | 'e' :: rest => exponentPart negative significand dropped rest
  | 'E' :: rest => exponentPart negative significand dropped rest
  | _ =>
    if dropped = 0 then .ok (wholeNumber negative significand, text)
    else (scaled negative significand dropped).map fun x => (.floating x, text)

def unsignedNumber (negative : Bool) (text : List Char) :
    Except JsonFault (JsonNumber × List Char) :=
  match text with
  | [] => .error (.unfinished .value)
  | '0' :: rest =>
    if (rest.head?.map Char.isDigit).getD false then .error (.malformed .invalidNumber)
    else afterWhole negative 0 0 rest
  | c :: rest =>
    if !c.isDigit then .error (.malformed .invalidNumber)
    else
      let (significand, _, behind) := addDigits 0 0 (c :: rest)
      let dropped := behind.takeWhile Char.isDigit
      afterWhole negative significand dropped.length (behind.dropWhile Char.isDigit)

def number : Scan JsonNumber := fun text =>
  match text with
  | '-' :: rest => unsignedNumber true rest
  | _ => unsignedNumber false text

def skipExponent (text : List Char) : Except JsonFault (List Char) :=
  let text := match text with
    | '+' :: rest => rest
    | '-' :: rest => rest
    | _ => text
  match text with
  | [] => .error (.malformed .invalidNumber)
  | c :: rest =>
    if c.isDigit then .ok (rest.dropWhile Char.isDigit)
    else .error (.malformed .invalidNumber)

def skipAfterWhole (text : List Char) : Except JsonFault (List Char) :=
  match text with
  | '.' :: c :: rest =>
    if c.isDigit then
      match rest.dropWhile Char.isDigit with
      | 'e' :: rest => skipExponent rest
      | 'E' :: rest => skipExponent rest
      | rest => .ok rest
    else .error (.malformed .invalidNumber)
  | ['.'] => .error (.malformed .invalidNumber)
  | 'e' :: rest => skipExponent rest
  | 'E' :: rest => skipExponent rest
  | _ => .ok text

def skipUnsigned (text : List Char) : Except JsonFault (List Char) :=
  match text with
  | '0' :: rest =>
    if (rest.head?.map Char.isDigit).getD false then .error (.malformed .invalidNumber)
    else skipAfterWhole rest
  | c :: rest =>
    if c.isDigit then skipAfterWhole (rest.dropWhile Char.isDigit)
    else .error (.malformed .invalidNumber)
  | [] => .error (.malformed .invalidNumber)

def skipNumber (text : List Char) : Except JsonFault (List Char) :=
  match text with
  | '-' :: rest => skipUnsigned rest
  | _ => skipUnsigned text

/-! ## Lists and objects -/

/-- Whether a list goes on; `first` says that nothing of it was read. A comma between items is
taken, the bracket at the end is not. -/
def nextItem (first : Bool) : Scan Bool := do
  match ← peek with
  | none => unfinished .list
  | some ']' => return false
  | some c =>
    if first then return true
    else if c = ',' then
      advance
      match ← peek with
      | none => unfinished .value
      | some ']' => malformed .trailingComma
      | some _ => return true
    else malformed .expectedListCommaOrEnd

def endList : Scan Unit := do
  match ← peek with
  | none => unfinished .list
  | some ']' => advance
  | some ',' =>
    advance
    match ← peek with
    | some ']' => malformed .trailingComma
    | _ => malformed .trailingCharacters
  | some _ => malformed .trailingCharacters

def items {α : Type} (item : Scan α) (first : Bool) : Nat → Scan (List α)
  | 0 => unfinished .list
  | rounds + 1 => do
    if ← nextItem first then
      let x ← item
      let rest ← items item false rounds
      return x :: rest
    else
      advance
      return []

/-- Takes the name of the next member of an object, if there is one. The brace at the end is not
taken. -/
def nextName (first : Bool) : Scan (Option String) := do
  match ← peek with
  | none => unfinished .object
  | some '\x7d' => return none
  | some c =>
    if first then
      if c = '"' then
        advance
        return some (← string)
      else malformed .keyNotString
    else if c = ',' then
      advance
      match ← peek with
      | none => unfinished .value
      | some '"' =>
        advance
        return some (← string)
      | some '\x7d' => malformed .trailingComma
      | some _ => malformed .keyNotString
    else malformed .expectedObjectCommaOrEnd

def colon : Scan Unit := do
  match ← peek with
  | none => unfinished .object
  | some ':' => advance
  | some _ => malformed .expectedColon

/-- Takes the members of an object up to its end. A member changes what was made of the members
before it; it is met behind its name, in front of the colon. -/
def members {σ : Type} (member : String → σ → Scan σ) (first : Bool) (state : σ) : Nat → Scan σ
  | 0 => unfinished .object
  | rounds + 1 => do
    match ← nextName first with
    | none =>
      advance
      return state
    | some name =>
      let state ← member name state
      members member false state rounds

/-! ## Values -/

def value (rounds : Nat) (depth : Nat) : Scan Json := do
  match ← peek with
  | none => unfinished .value
  | some '"' =>
    advance
    return .string (← string)
  | some 'n' =>
    advance
    letters ['u', 'l', 'l']
    return .null
  | some 't' =>
    advance
    letters ['r', 'u', 'e']
    return .bool true
  | some 'f' =>
    advance
    letters ['a', 'l', 's', 'e']
    return .bool false
  | some '[' =>
    match depth with
    | 0 => malformed .tooDeep
    | depth + 1 =>
      advance
      return .array (← items (value rounds depth) true rounds)
  | some '\x7b' =>
    match depth with
    | 0 => malformed .tooDeep
    | depth + 1 =>
      advance
      let found ← members
        (fun name found => do
          colon
          return (name, ← value rounds depth) :: found)
        true [] rounds
      return .object found.reverse
  | some c =>
    if c = '-' || c.isDigit then return .number (← number)
    else malformed .expectedValue

def skipping (skip : List Char → Except JsonFault (List Char)) : Scan Unit := fun text =>
  (skip text).map fun rest => ((), rest)

mutual

def skipValue : Nat → Scan Unit
  | 0 => unfinished .value
  | rounds + 1 => do
    match ← peek with
    | none => unfinished .value
    | some '"' =>
      advance
      skipping skipString
    | some 'n' =>
      advance
      letters ['u', 'l', 'l']
    | some 't' =>
      advance
      letters ['r', 'u', 'e']
    | some 'f' =>
      advance
      letters ['a', 'l', 's', 'e']
    | some '[' =>
      advance
      match ← peek with
      | none => unfinished .list
      | some ']' => advance
      | some _ => skipItems rounds
    | some '\x7b' =>
      advance
      match ← peek with
      | none => unfinished .object
      | some '\x7d' => advance
      | some _ => skipMembers rounds
    | some c =>
      if c = '-' || c.isDigit then skipping skipNumber else malformed .expectedValue

/-- Skips the items of a list, of which there is one more, up to the end of the list. -/
def skipItems : Nat → Scan Unit
  | 0 => unfinished .list
  | rounds + 1 => do
    skipValue rounds
    match ← peek with
    | none => unfinished .list
    | some ']' => advance
    | some ',' =>
      advance
      skipItems rounds
    | some _ => malformed .expectedListCommaOrEnd

/-- Skips the members of an object, of which there is one more, up to the end of the object. -/
def skipMembers : Nat → Scan Unit
  | 0 => unfinished .object
  | rounds + 1 => do
    match ← peek with
    | none => unfinished .object
    | some '"' =>
      advance
      skipping skipString
      colon
      skipValue rounds
      match ← peek with
      | none => unfinished .object
      | some '\x7d' => advance
      | some ',' =>
        advance
        skipMembers rounds
      | some _ => malformed .expectedObjectCommaOrEnd
    | some _ => malformed .keyNotString

end

/-! ## Values of an expected type

A structure may be an object or an array of its fields. A skipped value may nest as deep as its
text allows; each level takes two rounds.
-/

/-- Fails on a value that is not of the expected type. A scalar is read first, so its own faults
come before; arrays and objects are not read. -/
def wrongType {α : Type} (expected : String) : Scan α := do
  match ← peek with
  | none => unfinished .value
  | some '"' =>
    advance
    let text ← string
    misfit (.invalidType (.string text) expected)
  | some 'n' =>
    advance
    letters ['u', 'l', 'l']
    misfit (.invalidType .null expected)
  | some 't' =>
    advance
    letters ['r', 'u', 'e']
    misfit (.invalidType (.bool true) expected)
  | some 'f' =>
    advance
    letters ['a', 'l', 's', 'e']
    misfit (.invalidType (.bool false) expected)
  | some '[' => misfit (.invalidType .sequence expected)
  | some '\x7b' => misfit (.invalidType .map expected)
  | some c =>
    if c = '-' || c.isDigit then
      let found ← number
      misfit (.invalidType (.number found) expected)
    else malformed .expectedValue

def expectString (expected : String) : Scan String := do
  match ← peek with
  | some '"' =>
    advance
    string
  | _ => wrongType expected

def expectList {α : Type} (rounds depth : Nat) (item : Nat → Scan α) : Scan (List α) := do
  match ← peek with
  | some '[' =>
    match depth with
    | 0 => malformed .tooDeep
    | depth + 1 =>
      advance
      items (item depth) true rounds
  | _ => wrongType "a sequence"

def expectOption {α : Type} (present : Scan α) : Scan (Option α) := do
  match ← peek with
  | some 'n' =>
    advance
    letters ['u', 'l', 'l']
    return none
  | _ => return some (← present)

/-- Takes the members of an object, with what is to be said of anything else. -/
def expectMembers {σ : Type} (expected : String) (rounds depth : Nat)
    (member : Nat → String → σ → Scan σ) (state : σ) : Scan σ := do
  match ← peek with
  | some '\x7b' =>
    match depth with
    | 0 => malformed .tooDeep
    | depth + 1 =>
      advance
      members (member depth) true state rounds
  | _ => wrongType expected

/-- Takes the value behind a name that was not met before. -/
def once {α : Type} (name : String) (before : Option α) (present : Scan α) : Scan (Option α) := do
  if before.isSome then misfit (.duplicateField name)
  colon
  return some (← present)

def skipMember (rounds : Nat) : Scan Unit := do
  colon
  skipValue (2 * rounds + 2)

def maximumDepth : Nat := 127

/-- Reads a whole text; the reader is told the length of the text and the depth allowed. -/
def run {α : Type} (reader : Nat → Nat → Scan α) (text : String) : Except JsonFault α := do
  let chars := text.toList
  let (result, rest) ← reader chars.length maximumDepth chars
  if (rest.dropWhile isSpace).isEmpty then return result
  else throw (.malformed .trailingCharacters)

end Scan

end YangToProto
