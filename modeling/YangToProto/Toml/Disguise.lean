import YangToProto.Toml.Value

/-!
# Moments in disguise

A table whose first key has a certain name stands for a moment, which is written in the text
behind that key. Its other entries do not count. Texts of moments are read more freely here than
moments that stand for themselves: a day may end at hour 24, and an offset may have any minutes as
long as it is no longer than a day.
-/

namespace YangToProto

namespace Moment

def wideOffset? (sign : Int) (text : List Char) : Option Offset := do
  let (hours, text) ← digits? 2 0 99 text
  let (minutes, text) ← digits? 2 0 99 (← mark? ':' text)
  let total := hours * 60 + minutes
  if text.isEmpty ∧ total ≤ 24 * 60 then some (.minutes (sign * total)) else none

/-- The moment of a day with a time and what stands behind them. -/
def withOffset? (day : Date) (clock : TimeOfDay) (text : List Char) : Option Moment :=
  match text with
  | [] => some (.dateTime day clock)
  | ['Z'] => some (.instant day clock .universal)
  | ['z'] => some (.instant day clock .universal)
  | '+' :: rest => (wideOffset? 1 rest).map (.instant day clock)
  | '-' :: rest => (wideOffset? (-1) rest).map (.instant day clock)
  | _ => none

def ofText? (text : String) : Option Moment := do
  let chars := text.toList
  if chars[2]? == some ':' then
    let (clock, rest) ← time? 24 chars
    if rest.isEmpty then some (.time clock) else none
  else
    let (day, rest) ← date? chars
    match rest with
    | [] => some (.date day)
    | mark :: rest =>
      if mark = 'T' ∨ mark = 't' ∨ mark = ' ' then
        let (clock, rest) ← time? 24 rest
        withOffset? day clock rest
      else none

end Moment

namespace Toml

/-- The first key of a table that stands for a moment. -/
def momentKey : String := "$__toml_private_datetime"

def disguised : Toml → Except TomlFault Toml
  | text value =>
    match Moment.ofText? value with
    | some found => .ok (moment found)
    | none => .error .unexpected
  | _ => .error .unexpected

mutual

/-- The value with moments in place of the tables that stand for them. -/
def reveal : Toml → Except TomlFault Toml
  | array items => array <$> revealItems items
  | table [] => .ok (table [])
  | table ((key, value) :: rest) => do
    if key == momentKey then disguised value
    else
      let first ← value.reveal
      return table ((key, first) :: (← revealEntries rest))
  | other => .ok other

/-- The items of an array with moments in place of the tables that stand for them. -/
def revealItems : List Toml → Except TomlFault (List Toml)
  | [] => .ok []
  | item :: rest => return (← item.reveal) :: (← revealItems rest)

/-- The entries of a table with moments in place of the tables that stand for them. -/
def revealEntries : List (String × Toml) → Except TomlFault (List (String × Toml))
  | [] => .ok []
  | (key, value) :: rest => return (key, ← value.reveal) :: (← revealEntries rest)

end

end Toml

end YangToProto
