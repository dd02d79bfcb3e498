import YangToProto.Decimal.Shortest
import YangToProto.Ini.Document
import YangToProto.Json.Value
import YangToProto.Ron.Document
import YangToProto.Toml.Value
import YangToProto.Yaml.Value

/-!
# Values of settings

What a source of settings says, whatever form it has: a file in one of several formats or
variables of the environment. A value is read as what is needed: a number can serve as a text, and
a number or a word as a switch.
-/

namespace YangToProto

inductive Setting where
  | absent
  | flag (value : Bool)
  | integer (value : Int)
  | floating (value : Float)
  | text (value : String)
  | list (items : List Setting)
  | group (entries : List (String × Setting))

namespace Setting

def entries : Setting → List (String × Setting)
  | group entries => entries
  | _ => []

def items : Setting → List Setting
  | list items => items
  | _ => []

def get? (key : String) (setting : Setting) : Option Setting := setting.entries.lookup key

def putEntry (key : String) (value : Setting) : List (String × Setting) → List (String × Setting)
  | [] => [(key, value)]
  | (k, old) :: rest =>
    if k = key then (key, value) :: rest else (k, old) :: putEntry key value rest

/-- A group with one entry replaced or added. Any other value becomes a group of that entry. -/
def put (setting : Setting) (key : String) (value : Setting) : Setting :=
  group (putEntry key value setting.entries)

theorem lookup_putEntry (key k : String) (value : Setting) (entries : List (String × Setting)) :
    (putEntry key value entries).lookup k = if k = key then some value else entries.lookup k := by
  induction entries with
  | nil =>
    by_cases h : k = key
    · simp [putEntry, h]
    · have hb : (k == key) = false := by simpa using h
      simp [putEntry, List.lookup_cons, h, hb]
  | cons head rest ih =>
    obtain ⟨j, old⟩ := head
    by_cases hj : j = key
    · by_cases h : k = j
      · simp [putEntry, hj, h]
      · have hb : (k == key) = false := by simpa [← hj] using h
        simp [putEntry, List.lookup_cons, hj, hb, beq_eq_false_iff_ne.1 hb]
    · by_cases h : k = j
      · simp [putEntry, hj, h]
      · have hb : (k == j) = false := by simpa using h
        simp [putEntry, List.lookup_cons, hj, hb, ih]

/-- The entry that was put is there, and all others are as they were. -/
theorem get?_put (key k : String) (value setting : Setting) :
    (setting.put key value).get? k = if k = key then some value else setting.get? k :=
  lookup_putEntry key k value setting.entries

mutual

/-- The setting that a TOML value gives. A moment is a text. -/
def ofToml : Toml → Setting
  | .text value => text value
  | .integer value => integer value
  | .floating value => floating value
  | .flag value => flag value
  | .moment value => text value.text
  | .array items => list (ofTomlItems items)
  | .table entries => group (ofTomlEntries entries)

def ofTomlItems : List Toml → List Setting
  | [] => []
  | item :: rest => ofToml item :: ofTomlItems rest

def ofTomlEntries : List (String × Toml) → List (String × Setting)
  | [] => []
  | (key, value) :: rest => (key, ofToml value) :: ofTomlEntries rest

end

/-- The setting that a whole number gives. One that does not fit 64 bits with a sign is floating. -/
def ofWholeNumber (value : Int) : Setting :=
  if Digits.fitsWord value then integer value
  else floating (if value < 0 then -value.natAbs.toFloat else value.natAbs.toFloat)

mutual

/-- The setting that a JSON value gives. Of members with one name the last counts. -/
def ofJson : Json → Setting
  | .null => absent
  | .bool value => flag value
  | .number (.integer value) => ofWholeNumber value
  | .number (.floating value) => floating value
  | .string value => text value
  | .array items => list (ofJsonItems items)
  | .object members => group (ofJsonMembers [] members)

def ofJsonItems : List Json → List Setting
  | [] => []
  | item :: rest => ofJson item :: ofJsonItems rest

def ofJsonMembers (entries : List (String × Setting)) :
    List (String × Json) → List (String × Setting)
  | [] => entries
  | (name, value) :: rest => ofJsonMembers (putEntry name (ofJson value) entries) rest

end

mutual

/-- The setting that a value in RON gives. Keys of maps must be texts. -/
def ofRon : Ron → Except RonFault Setting
  | .nothing => .ok absent
  | .optional value => ofRon value
  | .flag value => .ok (flag value)
  | .integer value => .ok (ofWholeNumber value)
  | .floating value => .ok (floating value)
  | .text value => .ok (text value)
  | .list items => list <$> ofRonItems items
  | .map entries => group <$> ofRonEntries [] entries

def ofRonItems : List Ron → Except RonFault (List Setting)
  | [] => .ok []
  | item :: rest => return (← ofRon item) :: (← ofRonItems rest)

def ofRonEntries (entries : List (String × Setting)) :
    List (Ron × Ron) → Except RonFault (List (String × Setting))
  | [] => .ok entries
  | (.text name, value) :: rest => do ofRonEntries (putEntry name (← ofRon value) entries) rest
  | _ => .error .keyNotText

end

mutual

/-- The setting that a node in YAML gives. Keys of maps must be scalars, and floating-point numbers
must be finite. -/
def ofYaml : Yaml → Except YamlFault Setting
  | .nothing => .ok absent
  | .unreadable => .ok absent
  | .flag value => .ok (flag value)
  | .integer value => .ok (integer value)
  | .floating written =>
    match Yaml.float? written.toList with
    | some value => .ok (floating value)
    | none => .error .badNumber
  | .text value => .ok (text value)
  | .list items => list <$> ofYamlItems items
  | .map entries => group <$> ofYamlEntries [] entries

def ofYamlItems : List Yaml → Except YamlFault (List Setting)
  | [] => .ok []
  | item :: rest => return (← ofYaml item) :: (← ofYamlItems rest)

def ofYamlEntries (entries : List (String × Setting)) :
    List (Yaml × Yaml) → Except YamlFault (List (String × Setting))
  | [] => .ok entries
  | (key, value) :: rest => do
    match key.keyText? with
    | some name => ofYamlEntries (putEntry name (← ofYaml value) entries) rest
    | none => .error .badKey

end

/-- The setting that the entries of a section give. Of entries with one key the last counts. -/
def ofSection (entries : List (String × String)) : List (String × Setting) :=
  entries.foldl (fun found (key, value) => putEntry key (text value) found) []

/-- The settings that the sections of an INI text give. Of sections with one name the last
counts. -/
def ofIni (sections : List IniSection) : List (String × Setting) :=
  sections.foldl (fun found part =>
    match part.name with
    | some name => putEntry name (group (ofSection part.entries)) found
    | none => found ++ ofSection part.entries) []

/-! ## Reading a value as what is needed -/

/-- The text of a floating-point number: no exponent, and no point if it is whole. -/
def floatText (x : Float) : String :=
  if x.isNaN then "NaN"
  else if x.isInf then (if x < 0.0 then "-inf" else "inf")
  else (Decimal.ofBits x.toBits).plain

def toText? : Setting → Option String
  | text value => some value
  | flag value => some (if value then "true" else "false")
  | integer value => some (toString value)
  | floating value => some (floatText value)
  | _ => none

def toFlag? : Setting → Option Bool
  | flag value => some value
  | integer value => some (value != 0)
  | floating value => some (value != 0.0)
  | text value =>
    let word := String.ofList (value.toList.map Char.toLower)
    if ["1", "true", "on", "yes"].contains word then some true
    else if ["0", "false", "off", "no"].contains word then some false
    else none
  | _ => none

def toTexts? : Setting → Option (List String)
  | list items => items.mapM toText?
  | _ => none

/-- The value as fields with the given names: the entries of a group, or the items of a list in
the order of the names. -/
def fields? (names : List String) : Setting → Option (List (String × Setting))
  | group entries => some entries
  | list items => some (names.zip items)
  | _ => none

end Setting

end YangToProto
