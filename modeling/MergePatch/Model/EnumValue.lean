/-!
# Enumerated values

A resource's `enumValue` is one of the known values `first`, `second` and `third`, or any other
string, kept as it is so that it survives being read and written back. `ofString` maps the three
known spellings to their values and keeps every other string.
-/

namespace MergePatch

/-- A known value or any other string. -/
inductive EnumValue where
  | first
  | second
  | third
  | other (s : String)
deriving DecidableEq, Repr, Inhabited

namespace EnumValue

/-- The value a string stands for. -/
def ofString (s : String) : EnumValue :=
  if s = "first" then first
  else if s = "second" then second
  else if s = "third" then third
  else other s

/-- The string of a value. -/
def asString : EnumValue → String
  | first => "first"
  | second => "second"
  | third => "third"
  | other s => s

/-- The name of the value's variant: `First`, `Second`, `Third` or `Other`. -/
def variantName : EnumValue → String
  | first => "First"
  | second => "Second"
  | third => "Third"
  | other _ => "Other"

end EnumValue

end MergePatch
