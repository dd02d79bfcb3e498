import YangToProto.Text.Digits

/-!
# INI texts

A text is a sequence of sections with a name in brackets, and each section a sequence of entries:
a key, an equals sign or colon and a value in the rest of the line. Entries may stand in front of
the first section. A backslash starts an escape everywhere but in comments, which start a line.
-/

namespace YangToProto

/-- Whether a character is white space in texts of any script. -/
def isSpace (c : Char) : Bool :=
  let n := c.toNat
  (0x9 ≤ n && n ≤ 0xd) || n == 0x20 || n == 0x85 || n == 0xa0 || n == 0x1680 ||
    (0x2000 ≤ n && n ≤ 0x200a) || n == 0x2028 || n == 0x2029 || n == 0x202f || n == 0x205f ||
    n == 0x3000

def trimSpace (text : List Char) : List Char :=
  ((text.dropWhile isSpace).reverse.dropWhile isSpace).reverse

def trimSpaceEnd (text : List Char) : List Char := (text.reverse.dropWhile isSpace).reverse

/-- A part of an INI text. Only the entries in front of the first name have no name. -/
structure IniSection where
  name : Option String
  entries : List (String × String)
deriving DecidableEq, Repr

inductive IniFault where
  /-- The text ends in the middle of something. -/
  | unfinished
  /-- A comment does not start a line. -/
  | lateComment
  /-- A value has no key in front of it. -/
  | noKey
  /-- A character is given by a number that is none of a character. -/
  | unknownEscape
deriving DecidableEq, Repr

namespace IniFault

def message : IniFault → String
  | unfinished => "INI text ends too early"
  | lateComment => "a comment does not start a line"
  | noKey => "missing key"
  | unknownEscape => "unknown character in an escape"

end IniFault

namespace Ini

/-! ## Texts with escapes -/

/-- The character that four hexadecimal digits stand for. A plus sign may be the first of them. -/
def numbered? (digits : List Char) : Option Char := do
  let digits := match digits with
    | '+' :: rest => rest
    | _ => digits
  let n ← Digits.number? 16 digits
  if n < 0xD800 ∨ (0xDFFF < n ∧ n < 0x110000) then some (Char.ofNat n) else none

def escaped (c : Char) : Char :=
  if c = '0' then '\x00'
  else if c = 'a' then '\x07'
  else if c = 'b' then '\x08'
  else if c = 't' then '\t'
  else if c = 'r' then '\x0d'
  else if c = 'n' then '\n'
  else c

/-- The text up to a character that ends it, and the rest from there on. A backslash at the end of
a line joins the lines. Each step takes a round. -/
def upTo (isEnd : Char → Bool) (endsWithText : Bool) :
    Nat → List Char → Except IniFault (List Char × List Char)
  | _, [] => if endsWithText then .ok ([], []) else .error .unfinished
  | 0, _ => .error .unfinished
  | rounds + 1, c :: rest =>
    if isEnd c then .ok ([], c :: rest)
    else if c = '\\' then
      match rest with
      | [] => .error .unfinished
      | '\n' :: rest => upTo isEnd endsWithText rounds rest
      | 'x' :: a :: b :: c :: d :: rest =>
        match numbered? [a, b, c, d] with
        | some c => (upTo isEnd endsWithText rounds rest).map fun (text, rest) => (c :: text, rest)
        | none => .error .unknownEscape
      | c :: rest =>
        if c = 'x' then .error .unfinished
        else
          (upTo isEnd endsWithText rounds rest).map fun (text, rest) => (escaped c :: text, rest)
    else (upTo isEnd endsWithText rounds rest).map fun (text, rest) => (c :: text, rest)

def isLineEnd (c : Char) : Bool := c == '\n' || c == '\x0d'

/-- The value in the rest of a line. Quotes may stand in front of the rest, and the parts are put
together without them. Only white space that is not quoted counts as none; `isFirst` says that no
part was read. -/
def value (isFirst : Bool) : Nat → List Char → Except IniFault (List Char × List Char)
  | _, [] => .ok ([], [])
  | 0, _ => .error .unfinished
  | rounds + 1, c :: rest => do
    if c = '"' ∨ c = '\x27' then
      let (part, rest) ← upTo (· == c) false rest.length rest
      let (more, rest) ← value false rounds (rest.drop 1)
      return (part ++ more, rest)
    else
      let (part, rest) ← upTo isLineEnd true (rest.length + 1) (c :: rest)
      return (if isFirst then trimSpace part else trimSpaceEnd part, rest)

/-! ## Sections -/

/-- Sections with one more entry in the last of them. The last section is the first of the list. -/
def addEntry (key value : String) : List IniSection → List IniSection
  | [] => [⟨none, [(key, value)]⟩]
  | last :: before => { last with entries := last.entries ++ [(key, value)] } :: before

def dropSpace (startsLine : Bool) : List Char → Bool × List Char
  | [] => (startsLine, [])
  | c :: rest => if isSpace c then dropSpace (c == '\n') rest else (startsLine, c :: rest)

def isSpaceInLine (c : Char) : Bool := isSpace c && !isLineEnd c

/-- All sections of a text behind those read so far, which are given in reverse. Each section,
entry and comment takes a round. -/
def sections (startsLine : Bool) (read : List IniSection) :
    Nat → List Char → Except IniFault (List IniSection)
  | 0, _ => .error .unfinished
  | rounds + 1, text => do
    let (startsLine, text) := dropSpace startsLine text
    match text with
    | [] => return read.reverse
    | '[' :: rest =>
      let (name, rest) ← upTo (· == ']') false rest.length rest
      let name := String.ofList (trimSpace name)
      sections false (⟨some name, []⟩ :: read) rounds (rest.drop 1)
    | c :: rest =>
      if c = ';' ∨ c = '#' then
        if !startsLine then throw .lateComment
        sections true read rounds ((rest.dropWhile (· != '\n')).drop 1)
      else
        let (key, rest) ← upTo (fun c => c == '=' || c == ':') false text.length text
        let key := trimSpace key
        if key.isEmpty then throw .noKey
        let rest := (rest.drop 1).dropWhile isSpaceInLine
        let (value, rest) ← value true (rest.length + 1) rest
        sections false (addEntry (String.ofList key) (String.ofList value) read) rounds rest

end Ini

def Ini.read (text : String) : Except IniFault (List IniSection) :=
  Ini.sections true [] (text.toList.length + 1) text.toList

end YangToProto
