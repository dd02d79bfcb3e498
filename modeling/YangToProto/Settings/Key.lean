import YangToProto.Settings.Value

/-!
# Keys and layers

A key is a name followed by names of entries and places in lists, as in `sources.yang_files[0]`.
A source of settings is laid on another key by key: groups are merged, and any other value
takes the place of what was there. Entries are kept under their names in lower case, so the case of
a name does not count.
-/

namespace YangToProto

/-- A letter in lower case if that is ASCII. Outside ASCII this changes only the sign of the unit
kelvin, whose lower case is the letter k. -/
def lowerLetter (c : Char) : Char := if c = '\u212a' then 'k' else c.toLower

def lowerName (name : String) : String := String.ofList (name.toList.map lowerLetter)

/-- One step of a key behind its first name. -/
inductive KeyStep where
  | entry (name : String)
  /-- A place in a list; a negative one is counted from the end. -/
  | place (position : Int)
deriving DecidableEq, Repr

structure SettingKey where
  name : String
  steps : List KeyStep
deriving DecidableEq, Repr

namespace SettingKey

/-! ## Reading keys -/

def isNameChar (c : Char) : Bool := c.isAlphanum || c == ' ' || c == '_' || c == '-'

def isBlank (c : Char) : Bool := c == ' ' || c == '\t'

def position? (text : List Char) : Option (Int × List Char) := do
  let text := text.dropWhile isBlank
  let (negative, text) := match text with
    | '-' :: rest => (true, rest)
    | _ => (false, text)
  let n ← Digits.number? 10 (text.takeWhile Char.isDigit)
  let position : Int := if negative then -n else n
  if !Digits.fitsWord position then none
  else
    match (text.dropWhile Char.isDigit).dropWhile isBlank with
    | ']' :: rest => some (position, rest)
    | _ => none

/-- The steps that a text stands for. Each step takes a round. -/
def steps? : Nat → List Char → Option (List KeyStep)
  | _, [] => some []
  | 0, _ :: _ => none
  | rounds + 1, '.' :: rest =>
    let name := rest.takeWhile isNameChar
    if name.isEmpty then none
    else (steps? rounds (rest.dropWhile isNameChar)).map (.entry (String.ofList name) :: ·)
  | rounds + 1, '[' :: rest => do
    let (position, rest) ← position? rest
    return .place position :: (← steps? rounds rest)
  | _ + 1, _ => none

/-- The key that a text stands for. A text that is no key is the name of an entry as it is. -/
def ofText (text : String) : SettingKey :=
  let chars := text.toList
  let name := chars.takeWhile isNameChar
  match steps? chars.length (chars.dropWhile isNameChar) with
  | some steps => if name.isEmpty then ⟨text, []⟩ else ⟨String.ofList name, steps⟩
  | none => ⟨text, []⟩

end SettingKey

namespace Setting

/-! ## Layers -/

mutual

def layOn (old : Option Setting) : Setting → Setting
  | group entries => layEntries (old.getD (group [])) entries
  | value => value

/-- Entries laid on a value, which becomes a group. -/
def layEntries (old : Setting) : List (String × Setting) → Setting
  | [] => old
  | (key, value) :: rest =>
    let name := lowerName key
    layEntries (old.put name (layOn (old.get? name) value)) rest

end

/-- The index that a position stands for in a list of some length. -/
def index (length : Nat) (position : Int) : Nat :=
  if position < 0 then (length + position).toNat else position.toNat

/-- A list with another value at an index, and nothing at the places that are missing in front of
it. -/
def putItem (index : Nat) (value : Setting) (items : List Setting) : List Setting :=
  (items ++ List.replicate (index + 1 - items.length) absent).set index value

/-- What there is with a value laid on it behind some steps. A place takes a value as it is. -/
def assign (value : Setting) (old : Option Setting) : List KeyStep → Setting
  | [] => value.layOn old
  | .entry name :: rest =>
    let around := old.getD absent
    let name := lowerName name
    around.put name (assign value (around.get? name) rest)
  | .place position :: rest =>
    let items := (old.getD absent).items
    let index := index items.length position
    list (putItem index (if rest.isEmpty then value else assign value items[index]? rest) items)

/-- All settings with a value laid on them behind a key, whose first name is an entry. -/
def assignKey (settings : Setting) (key : SettingKey) (value : Setting) : Setting :=
  value.assign (some settings) (.entry key.name :: key.steps)

def addSource (settings : Setting) (source : List (String × Setting)) : Setting :=
  source.foldl (fun settings (key, value) => settings.assignKey (.ofText key) value) settings

end Setting

end YangToProto
