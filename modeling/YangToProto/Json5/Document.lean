import YangToProto.Decimal.Reading
import YangToProto.Json.Value
import YangToProto.Text.Digits
import YangToProto.Text.Letter

/-!
# JSON5 texts

JSON5 is JSON as people write it: with comments, names without quotes, single quotes, commas
behind the last item, and numbers in more forms. A text gives a JSON value. Loops are bounded by
a number of rounds; the length of the text is always enough.
-/

namespace YangToProto

inductive Json5Fault where
  /-- Something else should stand there, or the text ends too early. -/
  | unexpected
  /-- A number does not fit. -/
  | badNumber
  /-- Half of a surrogate pair stands alone. -/
  | loneSurrogate
deriving DecidableEq, Repr

def Json5Fault.message : Json5Fault → String
  | unexpected => "invalid JSON5"
  | badNumber => "error parsing number"
  | loneSurrogate => "error parsing surrogate pair"

/-- A reader takes what it reads from the front of a text. -/
abbrev Json5Scan := StateT (List Char) (Except Json5Fault)

namespace Json5

/-! ## Space -/

def isLineEnd (c : Char) : Bool := c == '\n' || c == '\x0d' || c == '\u2028' || c == '\u2029'

/-- Whether a character may stand between the parts of a text. -/
def isBlank (c : Char) : Bool :=
  let n := c.toNat
  n == 0x9 || n == 0xb || n == 0xc || n == 0x20 || n == 0xa0 || n == 0xfeff || n == 0x1680 ||
    (0x2000 ≤ n && n ≤ 0x200a) || n == 0x202f || n == 0x205f || n == 0x3000 || isLineEnd c

/-- The text behind a comment between a slash and stars, if the comment ends. -/
def afterStars? : List Char → Option (List Char)
  | [] => none
  | '*' :: '/' :: rest => some rest
  | _ :: rest => afterStars? rest

/-- The text behind blanks and comments. What starts no comment stays. -/
def dropSpace : Nat → List Char → List Char
  | 0, text => text
  | rounds + 1, text =>
    match text.dropWhile isBlank with
    | '/' :: '/' :: rest => dropSpace rounds (rest.dropWhile (!isLineEnd ·))
    | '/' :: '*' :: rest =>
      match afterStars? rest with
      | some rest => dropSpace rounds rest
      | none => '/' :: '*' :: rest
    | rest => rest

def space : Json5Scan Unit := modify fun text => dropSpace (text.length + 1) text

def peek : Json5Scan (Option Char) := return (← get).head?

def advance : Json5Scan Unit := modify List.tail

def mark (expected : Char) : Json5Scan Unit := do
  if (← peek) == some expected then advance else throw .unexpected

/-! ## Texts and names -/

def unit? (text : List Char) : Option (Nat × List Char) :=
  match text with
  | a :: b :: c :: d :: rest => (Digits.number? 16 [a, b, c, d]).map (·, rest)
  | _ => none

/-- Takes a character that is given by one number, or by two that are a surrogate pair. The
letter in front of the first number is taken. -/
def numbered (text : List Char) : Except Json5Fault (Char × List Char) :=
  match unit? text with
  | none => .error .unexpected
  | some (high, rest) =>
    if high < 0xD800 ∨ 0xDFFF < high then .ok (Char.ofNat high, rest)
    else
      match rest with
      | '\\' :: 'u' :: rest =>
        match unit? rest with
        | none => .error .unexpected
        | some (low, rest) =>
          if high ≤ 0xDBFF ∧ 0xDC00 ≤ low ∧ low ≤ 0xDFFF then
            .ok (Char.ofNat (0x10000 + (high - 0xD800) * 0x400 + (low - 0xDC00)), rest)
          else .error .loneSurrogate
      | _ => .error .loneSurrogate

def afterBreak (text : List Char) : List Char :=
  match text with
  | '\x0d' :: '\n' :: rest => rest
  | _ => text.drop 1

/-- Takes what a backslash starts: a character, or nothing if it joins two lines. -/
def escape (text : List Char) : Except Json5Fault (List Char × List Char) :=
  match text with
  | [] => .error .unexpected
  | 'u' :: rest => (numbered rest).map fun (c, rest) => ([c], rest)
  | 'x' :: a :: b :: rest =>
    match Digits.number? 16 [a, b] with
    | some n => .ok ([Char.ofNat n], rest)
    | none => .error .unexpected
  | c :: rest =>
    if isLineEnd c then .ok ([], afterBreak text)
    else if c = '0' then .ok (['\x00'], rest)
    else if c.isDigit ∨ c = 'x' then .error .unexpected
    else if c = 'b' then .ok (['\x08'], rest)
    else if c = 'f' then .ok (['\x0c'], rest)
    else if c = 'n' then .ok (['\n'], rest)
    else if c = 'r' then .ok (['\x0d'], rest)
    else if c = 't' then .ok (['\t'], rest)
    else if c = 'v' then .ok (['\x0b'], rest)
    else .ok ([c], rest)

/-- The rest of a text in quotes up to the closing one, and what comes behind it. Each character
takes a round. -/
def quoted (quote : Char) : Nat → List Char → Except Json5Fault (List Char × List Char)
  | 0, _ => .error .unexpected
  | _ + 1, [] => .error .unexpected
  | rounds + 1, c :: rest => do
    if c = quote then return ([], rest)
    else if c = '\\' then
      let (part, rest) ← escape rest
      let (more, rest) ← quoted quote rounds rest
      return (part ++ more, rest)
    else if isLineEnd c then .error .unexpected
    else
      let (more, rest) ← quoted quote rounds rest
      return (c :: more, rest)

def string (quote : Char) : Json5Scan String := do
  advance
  let text ← get
  let (body, rest) ← quoted quote (text.length + 1) text
  set rest
  return String.ofList body

def startsName (c : Char) : Bool := isLetter c || c == '$' || c == '_'

def continuesName (c : Char) : Bool :=
  startsName c || isLetterMark c || c == '\u200c' || c == '\u200d'

/-- The name at the front of a text, and the rest. Each character takes a round. -/
def name (isFirst : Bool) : Nat → List Char → Except Json5Fault (List Char × List Char)
  | 0, text => .ok ([], text)
  | rounds + 1, text => do
    match text with
    | '\\' :: 'u' :: rest =>
      let (c, rest) ← numbered rest
      let (more, rest) ← name false rounds rest
      return (c :: more, rest)
    | c :: rest =>
      if startsName c || (!isFirst && continuesName c) then
        let (more, rest) ← name false rounds rest
        return (c :: more, rest)
      else return ([], text)
    | [] => return ([], [])

def key : Json5Scan String := do
  match ← peek with
  | some '"' => string '"'
  | some '\x27' => string '\x27'
  | _ =>
    let text ← get
    let (letters, rest) ← name true (text.length + 1) text
    if letters.isEmpty then throw .unexpected
    set rest
    return String.ofList letters

/-! ## Numbers -/

/-- The exponent at the front of a text; empty if there is none. -/
def exponentPart (text : List Char) : List Char :=
  match text with
  | mark :: '+' :: rest =>
    let digits := rest.takeWhile Char.isDigit
    if (mark == 'e' || mark == 'E') && !digits.isEmpty then mark :: '+' :: digits else []
  | mark :: '-' :: rest =>
    let digits := rest.takeWhile Char.isDigit
    if (mark == 'e' || mark == 'E') && !digits.isEmpty then mark :: '-' :: digits else []
  | mark :: rest =>
    let digits := rest.takeWhile Char.isDigit
    if (mark == 'e' || mark == 'E') && !digits.isEmpty then mark :: digits else []
  | [] => []

def wholePart (text : List Char) : List Char :=
  match text with
  | '0' :: _ => ['0']
  | _ => text.takeWhile Char.isDigit

def decimal? (text : List Char) : Option (List Char) :=
  let whole := wholePart text
  match text.drop whole.length with
  | '.' :: rest =>
    let digits := rest.takeWhile Char.isDigit
    if whole.isEmpty && digits.isEmpty then none
    else some (whole ++ '.' :: digits ++ exponentPart (rest.drop digits.length))
  | rest => if whole.isEmpty then none else some (whole ++ exponentPart rest)

/-- A decimal number with its sign. It is whole if it has neither point nor exponent. -/
def decimalValue (sign digits : List Char) : Except Json5Fault JsonNumber :=
  let text := sign ++ digits
  if digits.all Char.isDigit then
    match Digits.signed? 10 text with
    | some n => .ok (.integer n)
    | none => .error .badNumber
  else
    match Decimal.read? text with
    | some x => if x.toFloat.isInf then .error .badNumber else .ok (.floating x.toFloat)
    | none => .error .badNumber

def hexValue (sign digits : List Char) : Except Json5Fault JsonNumber :=
  match Digits.number? 16 digits with
  | some n => if sign.isEmpty ∧ n < UInt32.size then .ok (.integer n) else .error .badNumber
  | none => .error .badNumber

def namedValue (sign : List Char) (value : Float) : Except Json5Fault JsonNumber :=
  if sign = ['+'] then .error .badNumber
  else .ok (.floating (if sign = ['-'] then -value else value))

def number : Json5Scan JsonNumber := do
  let sign := (← get).takeWhile (fun c => c == '+' || c == '-')
  if 1 < sign.length then throw .unexpected
  let text := (← get).drop sign.length
  let hex := match text with
    | '0' :: mark :: rest => if mark == 'x' || mark == 'X' then rest.takeWhile Digits.isHex else []
    | _ => []
  if !hex.isEmpty then
    set (text.drop (2 + hex.length))
    hexValue sign hex
  else
    match decimal? text with
    | some digits =>
      set (text.drop digits.length)
      decimalValue sign digits
    | none =>
      if "Infinity".toList.isPrefixOf text then
        set (text.drop 8)
        namedValue sign (1.0 / 0.0)
      else if "NaN".toList.isPrefixOf text then
        set (text.drop 3)
        namedValue sign (0.0 / 0.0)
      else throw .unexpected

/-! ## Values -/

def word (letters : String) (value : Json) : Json5Scan Json := do
  let text ← get
  if letters.toList.isPrefixOf text then
    set (text.drop letters.length)
    return value
  else throw .unexpected

/-- Takes items with commas between them up to the closing mark. A comma may stand behind the
last one. -/
def itemsUpTo {α : Type} (close : Char) (item : Json5Scan α) : Nat → Json5Scan (List α)
  | 0 => throw .unexpected
  | rounds + 1 => do
    space
    if (← peek) == some close then
      advance
      return []
    let x ← item
    space
    if (← peek) == some ',' then
      advance
      return x :: (← itemsUpTo close item rounds)
    else
      mark close
      return [x]

def member (value : Json5Scan Json) : Json5Scan (String × Json) := do
  let name ← key
  space
  mark ':'
  space
  return (name, ← value)

/-- Takes a value. Each value around it takes a round. -/
def value : Nat → Json5Scan Json
  | 0 => throw .unexpected
  | rounds + 1 => do
    let length := (← get).length
    match ← peek with
    | some 'n' => word "null" .null
    | some 't' => word "true" (.bool true)
    | some 'f' => word "false" (.bool false)
    | some '"' => return .string (← string '"')
    | some '\x27' => return .string (← string '\x27')
    | some '[' =>
      advance
      return .array (← itemsUpTo ']' (value rounds) (length + 1))
    | some '\x7b' =>
      advance
      return .object (← itemsUpTo '\x7d' (member (value rounds)) (length + 1))
    | _ => return .number (← number)

def document : Json5Scan Json := do
  space
  let found ← value ((← get).length + 1)
  space
  if (← get).isEmpty then return found else throw .unexpected

end Json5

def Json5.read (text : String) : Except Json5Fault Json :=
  (Json5.document text.toList).map (·.1)

end YangToProto
