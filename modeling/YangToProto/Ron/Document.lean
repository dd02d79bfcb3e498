import YangToProto.Decimal.Reading
import YangToProto.Text.Digits

/-!
# RON texts

A text of this notation holds one value: a number, a character or text, a list, a map, or a
structure. A structure with named fields is a map from their names, one without is a list, and one
without anything is nothing. The names of structures do not count. Values stand in each other up
to a limit.
-/

namespace YangToProto

inductive Ron where
  | nothing
  /-- A value that need not be there. -/
  | optional (value : Ron)
  | flag (value : Bool)
  | integer (value : Int)
  | floating (value : Float)
  | text (value : String)
  | list (items : List Ron)
  | map (entries : List (Ron × Ron))

inductive RonFault where
  /-- Something else should stand there. -/
  | unexpected
  /-- The text ends in the middle of something. -/
  | unfinished
  | tooDeep
  /-- A map has a key that is no text. -/
  | keyNotText
deriving DecidableEq, Repr

def RonFault.message : RonFault → String
  | unexpected => "invalid RON"
  | unfinished => "RON text ends too early"
  | tooDeep => "RON values are nested too deep"
  | keyNotText => "a map has a key that is not a string"

/-- A reader takes what it reads from the front of a text. -/
abbrev RonScan := StateT (List Char) (Except RonFault)

namespace RonScan

/-! ## Space -/

def isBlank (c : Char) : Bool := c == ' ' || c == '\t' || c == '\n' || c == '\x0d'

/-- The text behind a comment between slashes and stars, in which such comments may stand. -/
def afterStars : Nat → List Char → Except RonFault (List Char)
  | _, [] => .error .unfinished
  | level, '/' :: '*' :: rest => afterStars (level + 1) rest
  | level, '*' :: '/' :: rest =>
    match level with
    | 0 => .ok rest
    | level + 1 => afterStars level rest
  | level, _ :: rest => afterStars level rest

def dropSpace : Nat → List Char → Except RonFault (List Char)
  | 0, text => .ok text
  | rounds + 1, text =>
    match text.dropWhile isBlank with
    | '/' :: '/' :: rest => dropSpace rounds (rest.dropWhile (· != '\n'))
    | '/' :: '*' :: rest => do dropSpace rounds (← afterStars 0 rest)
    | '/' :: _ => .error .unexpected
    | rest => .ok rest

def space : RonScan Unit := fun text =>
  (dropSpace (text.length + 1) text).map fun rest => ((), rest)

def peek : RonScan Char := do
  match ← get with
  | [] => throw .unfinished
  | c :: _ => return c

def accept (letters : String) : RonScan Bool := do
  let text ← get
  if letters.toList.isPrefixOf text then
    set (text.drop letters.length)
    return true
  else return false

def mark (letters : String) : RonScan Unit := do
  if !(← accept letters) then throw .unexpected

/-! ## Names -/

def startsName (c : Char) : Bool := c.isAlpha || c == '_'

/-- Whether a character may stand in a name behind the first one. -/
def isNameChar (c : Char) : Bool := c.isAlphanum || c == '_'

/-- Whether a character may stand in a name behind a letter r and a hash. -/
def isRawNameChar (c : Char) : Bool := isNameChar c || c == '.' || c == '+' || c == '-'

def name? (text : List Char) : Option (String × List Char) :=
  let plain := text.takeWhile isNameChar
  let found := (String.ofList plain, text.dropWhile isNameChar)
  let isPlain := plain.length == (text.takeWhile isRawNameChar).length
  match text with
  | ['r'] => none
  | 'r' :: '"' :: _ => none
  | 'r' :: '#' :: rest =>
    let raw := rest.takeWhile isRawNameChar
    if raw.isEmpty then none else some (String.ofList raw, rest.dropWhile isRawNameChar)
  | c :: _ => if startsName c && isPlain then some found else none
  | [] => none

def word (letters : String) : RonScan Bool := do
  let text ← get
  let rest := text.drop letters.length
  if letters.toList.isPrefixOf text && !(rest.head?.map isNameChar).getD false then
    set rest
    return true
  else return false

/-! ## Texts -/

def ofNumber? (n : Nat) : Option Char :=
  if n < 0xD800 ∨ (0xDFFF < n ∧ n < 0x110000) then some (Char.ofNat n) else none

def escape? (text : List Char) : Option (Char × List Char) :=
  match text with
  | '\x27' :: rest => some ('\x27', rest)
  | '"' :: rest => some ('"', rest)
  | '\\' :: rest => some ('\\', rest)
  | 'n' :: rest => some ('\n', rest)
  | 'r' :: rest => some ('\x0d', rest)
  | 't' :: rest => some ('\t', rest)
  | '0' :: rest => some ('\x00', rest)
  | 'x' :: a :: b :: rest => do
    return (← ofNumber? (← Digits.number? 16 [a, b]), rest)
  | 'u' :: '\x7b' :: rest => do
    let digits := rest.takeWhile Digits.isHex
    if 6 < digits.length then none
    else
      let c ← ofNumber? (← Digits.number? 16 digits)
      match rest.drop digits.length with
      | '\x7d' :: rest => some (c, rest)
      | _ => none
  | _ => none

/-- The rest of a text in quotes up to the closing one, and what comes behind it. Each character
takes a round. -/
def quoted : Nat → List Char → Except RonFault (List Char × List Char)
  | 0, _ => .error .unfinished
  | _ + 1, [] => .error .unfinished
  | rounds + 1, c :: rest =>
    if c = '"' then .ok ([], rest)
    else if c = '\\' then
      match escape? rest with
      | none => .error .unexpected
      | some (c, rest) => (quoted rounds rest).map fun (more, rest) => (c :: more, rest)
    else (quoted rounds rest).map fun (more, rest) => (c :: more, rest)

/-- The rest of a text up to a closing mark, and what comes behind it. -/
def upTo (close : List Char) : List Char → Except RonFault (List Char × List Char)
  | [] => .error .unfinished
  | c :: rest =>
    if close.isPrefixOf (c :: rest) then .ok ([], (c :: rest).drop close.length)
    else (upTo close rest).map fun (more, rest) => (c :: more, rest)

/-- Takes a text in quotes. One behind a letter r has no escapes and ends with as many hashes as
it starts with. -/
def string : RonScan Ron := do
  let text ← get
  match text with
  | 'r' :: rest =>
    let hashes := rest.takeWhile (· == '#')
    match rest.drop hashes.length with
    | '"' :: rest =>
      let (body, rest) ← upTo ('"' :: hashes) rest
      set rest
      return .text (String.ofList body)
    | _ => throw .unexpected
  | _ =>
    let (body, rest) ← quoted (text.length + 1) (text.drop 1)
    set rest
    return .text (String.ofList body)

def character : RonScan Ron := do
  match ← get with
  | '\x27' :: '\\' :: rest =>
    match escape? rest with
    | some (c, '\x27' :: rest) =>
      set rest
      return .text (String.singleton c)
    | _ => throw .unexpected
  | '\x27' :: c :: '\x27' :: rest =>
    if c = '\x27' then throw .unexpected
    set rest
    return .text (String.singleton c)
  | _ => throw .unexpected

/-! ## Numbers -/

def isWholeChar (c : Char) : Bool := Digits.isHex c || c == '_'

def isFloatChar (c : Char) : Bool :=
  c.isDigit || c == 'e' || c == 'E' || c == '.' || c == '+' || c == '-'

def baseOf (text : List Char) : Nat × List Char :=
  match text with
  | '0' :: 'x' :: rest => (16, rest)
  | '0' :: 'b' :: rest => (2, rest)
  | '0' :: 'o' :: rest => (8, rest)
  | _ => (10, text)

/-- The whole number behind the sign at the front of a text, and the rest. A number without a sign
may be greater. -/
def whole? (sign : Option Char) (text : List Char) : Option (Int × List Char) := do
  let (base, digits) := baseOf text
  let digits := digits.takeWhile isWholeChar
  if digits.isEmpty || text.head? == some '_' then none
  else
    let n ← (digits.filter (· != '_')).foldlM (Digits.append? base) 0
    let value : Int := if sign == some '-' then -n else n
    let fits := if sign.isSome then Digits.fitsWord value else decide (n < UInt64.size)
    if fits then some (value, (baseOf text).2.drop digits.length) else none

def float? (text : List Char) : Option (Ron × List Char) := do
  let digits := text.takeWhile isFloatChar
  return (.floating (← Decimal.read? digits).toFloat, text.drop digits.length)

/-- The number at the front of a text, and the rest. What cannot be read as a whole number is
read as a floating-point one. -/
def number? (text : List Char) : Option (Ron × List Char) :=
  let (sign, digits) := match text with
    | '+' :: rest => (some '+', rest)
    | '-' :: rest => (some '-', rest)
    | _ => (none, text)
  if (digits.takeWhile isWholeChar).length < (digits.takeWhile isFloatChar).length then
    float? text
  else
    match whole? sign digits with
    | some (value, rest) => some (.integer value, rest)
    | none => float? text

def number : RonScan Ron := do
  match number? (← get) with
  | some (value, rest) =>
    set rest
    return value
  | none => throw .unexpected

/-! ## Values -/

/-- Takes items with commas between them up to the closing mark. A comma may stand behind the
last one. -/
def itemsUpTo {α : Type} (close : Char) (item : RonScan α) : Nat → RonScan (List α)
  | 0 => throw .unfinished
  | rounds + 1 => do
    space
    if (← peek) == close then
      modify List.tail
      return []
    let x ← item
    space
    if ← accept "," then return x :: (← itemsUpTo close item rounds)
    else
      mark (String.singleton close)
      return [x]

/-- Takes an entry of a map with the given readers of its key and its value. -/
def entry (key value : RonScan Ron) : RonScan (Ron × Ron) := do
  let k ← key
  space
  mark ":"
  space
  return (k, ← value)

def fieldName : RonScan Ron := do
  match name? (← get) with
  | some (name, rest) =>
    set rest
    return .text name
  | none => throw .unexpected

/-- Whether a structure has named fields, seen from behind its bracket. -/
def hasNames : RonScan Bool := do
  let text ← get
  space
  let inside ← get
  match name? inside with
  | none =>
    set text
    return false
  | some (_, rest) =>
    set rest
    space
    let next := (← get).head?
    set text
    return next == some ':'

def limit : Nat := 128

/-- Takes a value; so many values may stand in it in each other. -/
def value (rounds : Nat) (depth : Nat) : RonScan Ron := do
  let inner : RonScan Ron := match depth with
    | 0 => throw .tooDeep
    | depth + 1 => value rounds depth
  let structure' : RonScan Ron := do
    mark "("
    if ← hasNames then
      if depth = 0 then throw .tooDeep
      return .map (← itemsUpTo ')' (entry fieldName inner) rounds)
    else return .list (← itemsUpTo ')' inner rounds)
  if ← word "true" then return .flag true
  if ← word "false" then return .flag false
  if ← word "Some" then
    space
    mark "("
    space
    let found ← inner
    space
    if ← accept "," then space
    mark ")"
    return .optional found
  if ← word "None" then return .nothing
  if ← accept "()" then return .nothing
  if ← word "inf" then return .floating (1.0 / 0.0)
  if ← word "-inf" then return .floating (-(1.0 / 0.0))
  if ← word "NaN" then return .floating (0.0 / 0.0)
  match name? (← get) with
  | some (_, rest) =>
    set rest
    space
    if (← get).head? == some '(' then structure' else return .nothing
  | none =>
    let c ← peek
    if c = '(' then structure'
    else if c = '[' then
      modify List.tail
      return .list (← itemsUpTo ']' inner rounds)
    else if c = '\x7b' then
      modify List.tail
      return .map (← itemsUpTo '\x7d' (entry inner inner) rounds)
    else if c = '"' ∨ c = 'r' then string
    else if c = '\x27' then character
    else number
termination_by depth

def knownExtensions : List String :=
  ["unwrap_newtypes", "implicit_some", "unwrap_variant_newtypes"]

def extensions : Nat → RonScan Unit
  | 0 => throw .unfinished
  | rounds + 1 => do
    match name? (← get) with
    | none => throw .unexpected
    | some (name, rest) =>
      set rest
      if !knownExtensions.contains name then throw .unexpected
      space
      let comma ← accept ","
      space
      if ((← get).head?.map isNameChar).getD false then
        if comma then extensions rounds else throw .unexpected
      else
        mark ")"
        space
        mark "]"

/-- Takes the attributes in front of the value. They do not count for values of any form. -/
def attributes : Nat → RonScan Unit
  | 0 => return
  | rounds + 1 => do
    space
    if (← get).head? == some '#' then
      for letters in ["#", "!", "[", "enable", "("] do
        space
        mark letters
      space
      extensions (rounds + 1)
      attributes rounds

def document : RonScan Ron := do
  let rounds := (← get).length + 1
  attributes rounds
  let found ← value rounds limit
  space
  if (← get).isEmpty then return found else throw .unexpected

end RonScan

def Ron.read (text : String) : Except RonFault Ron := (RonScan.document text.toList).map (·.1)

end YangToProto
