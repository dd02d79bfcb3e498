import YangToProto.Text.Digits
import YangToProto.Toml.Value

/-!
# Quoted texts

A text stands between double or single quotes, one or three of them. Only between double quotes a
backslash starts an escape, and only between three quotes a text has several lines. A text is
written in the first form in which nothing needs to be escaped.
-/

namespace YangToProto.TomlScan

/-! ## Reading -/

def scalar? (digits : List Char) : Option Char := do
  let n ← Digits.number? 16 digits
  if n < 0xD800 ∨ (0xDFFF < n ∧ n < 0x110000) then some (Char.ofNat n) else none

def escape? (text : List Char) : Option (Char × List Char) :=
  match text with
  | '"' :: rest => some ('"', rest)
  | '\\' :: rest => some ('\\', rest)
  | 'b' :: rest => some ('\x08', rest)
  | 'f' :: rest => some ('\x0c', rest)
  | 'n' :: rest => some ('\n', rest)
  | 'r' :: rest => some ('\x0d', rest)
  | 't' :: rest => some ('\t', rest)
  | 'u' :: a :: b :: c :: d :: rest => (scalar? [a, b, c, d]).map (·, rest)
  | 'U' :: a :: b :: c :: d :: e :: f :: g :: h :: rest =>
    (scalar? [a, b, c, d, e, f, g, h]).map (·, rest)
  | _ => none

/-- The rest of a text in one line up to its closing quote, and what comes behind it. The
characters read so far are given in reverse. Each character takes a round. -/
def lineBody (quote : Char) (read : List Char) : Nat → List Char →
    Except TomlFault (List Char × List Char)
  | 0, _ => .error .unfinished
  | _ + 1, [] => .error .unfinished
  | rounds + 1, c :: rest =>
    if c = quote then .ok (read.reverse, rest)
    else if c = '\\' ∧ quote = '"' then
      match escape? rest with
      | some (plain, rest) => lineBody quote (plain :: read) rounds rest
      | none => .error .unexpected
    else if isPrintable c then lineBody quote (c :: read) rounds rest
    else .error .unexpected

/-- Whether a text goes on with a line break behind blanks. -/
def breaksLine (text : List Char) : Bool :=
  match text.dropWhile isBlank with
  | '\n' :: _ => true
  | '\x0d' :: '\n' :: _ => true
  | _ => false

def dropBreaks : List Char → List Char
  | '\n' :: rest => dropBreaks rest
  | '\x0d' :: '\n' :: rest => dropBreaks rest
  | c :: rest => if isBlank c then dropBreaks rest else c :: rest
  | [] => []

/-- The rest of a text in several lines up to its three closing quotes, in front of which two more
belong to the text. A backslash at the end of a line joins the lines. -/
def linesBody (quote : Char) (read : List Char) : Nat → List Char →
    Except TomlFault (List Char × List Char)
  | 0, _ => .error .unfinished
  | _ + 1, [] => .error .unfinished
  | rounds + 1, c :: rest =>
    if c = quote then
      let run := (rest.takeWhile (· == quote)).length + 1
      if run < 3 then linesBody quote (c :: read) rounds rest
      else
        let inside := min (run - 3) 2
        .ok ((List.replicate inside quote ++ read).reverse, rest.drop (inside + 2))
    else if c = '\\' ∧ quote = '"' then
      if breaksLine rest then linesBody quote read rounds (dropBreaks rest)
      else
        match escape? rest with
        | some (plain, rest) => linesBody quote (plain :: read) rounds rest
        | none => .error .unexpected
    else if c = '\n' ∨ isPrintable c then linesBody quote (c :: read) rounds rest
    else
      match c, rest with
      | '\x0d', '\n' :: rest => linesBody quote ('\n' :: read) rounds rest
      | _, _ => .error .unexpected

def lineText (quote : Char) : TomlScan String := fun text =>
  (lineBody quote [] (text.length + 1) text).map fun (body, rest) => (String.ofList body, rest)

/-- Takes a text in several lines, whose opening quotes are taken. A line break right behind them
is not part of the text. -/
def linesText (quote : Char) : TomlScan String := fun text =>
  let inside := match text with
    | '\n' :: rest => rest
    | '\x0d' :: '\n' :: rest => rest
    | _ => text
  (linesBody quote [] (text.length + 1) inside).map fun (body, rest) => (String.ofList body, rest)

def quoted (quote : Char) : TomlScan String := do
  advance
  let text ← get
  if text.take 2 == [quote, quote] then
    set (text.drop 2)
    linesText quote
  else lineText quote

end YangToProto.TomlScan

namespace YangToProto.Toml

/-! ## Writing -/

def needsEscape (c : Char) : Bool :=
  c != '\t' && c != '\n' && (c.toNat < 0x20 || c == '\x7f')

def longestRun (c : Char) (text : List Char) : Nat :=
  (text.foldl (fun (run, longest) d =>
    let run := if d = c then run + 1 else 0
    (run, max longest run)) (0, 0)).2

def hexDigits (c : Char) : String :=
  let digit (unit : Nat) : Char := (Nat.digitChar (c.toNat / unit % 16)).toUpper
  String.ofList ([0x1000, 0x100, 0x10, 1].map digit)

/-- A character as written between double quotes. Line breaks stand for themselves between three
quotes. -/
def escape (inLines : Bool) (c : Char) : String :=
  if c = '\x08' then "\\b"
  else if c = '\t' then "\\t"
  else if c = '\n' then (if inLines then "\n" else "\\n")
  else if c = '\x0c' then "\\f"
  else if c = '\x0d' then "\\r"
  else if c = '\\' then "\\\\"
  else if needsEscape c then "\\u" ++ hexDigits c
  else String.singleton c

/-- The characters of a text as written between double quotes, with no more than the allowed
number of quotes in a row that are not escaped. The number in a row so far is given. -/
def escapeAll (inLines : Bool) (allowed run : Nat) : List Char → String
  | [] => ""
  | c :: rest =>
    if c = '"' then
      if run < allowed then "\"" ++ escapeAll inLines allowed (run + 1) rest
      else "\\\"" ++ escapeAll inLines allowed 0 rest
    else escape inLines c ++ escapeAll inLines allowed 0 rest

inductive QuoteStyle where
  | basic
  | literal
  | basicLines
  | literalLines
deriving DecidableEq, Repr

/-- Whether a text can be written in a form without an escape. -/
def QuoteStyle.fits (text : List Char) : QuoteStyle → Bool
  | basic =>
    !text.any needsEscape && !text.contains '\\' && !text.contains '"' && !text.contains '\n'
  | literal => !text.any needsEscape && !text.contains '\x27' && !text.contains '\n'
  | basicLines => !text.any needsEscape && !text.contains '\\' && longestRun '"' text ≤ 2
  | literalLines => !text.any needsEscape && longestRun '\x27' text ≤ 2

/-- The form in which a text is written: the first that fits, or between double quotes. -/
def QuoteStyle.choose (text : List Char) : QuoteStyle :=
  ([basic, literal, basicLines, literalLines].find? (·.fits text)).getD
    (if text.contains '\n' then basicLines else basic)

/-- A text in quotes. A text of several lines starts on a line of its own. -/
def quote (text : String) : String :=
  let body := text.toList
  let start := if body.contains '\n' then "\n" else ""
  match QuoteStyle.choose body with
  | .basic => "\"" ++ escapeAll false 0 0 body ++ "\""
  | .literal => "'" ++ text ++ "'"
  | .basicLines => "\"\"\"" ++ start ++ escapeAll true 2 0 body ++ "\"\"\""
  | .literalLines => "'''" ++ start ++ text ++ "'''"

end YangToProto.Toml
