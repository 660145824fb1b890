import LessTheme.Text.Basic

/-!
# Why a configuration is not accepted

A configuration is refused if it cannot be read, if it names something that
does not exist, or if a value makes no sense.
-/

namespace LessTheme

/-- Why a configuration is not accepted. -/
inductive ConfigFault
  /-- The text cannot be read. -/
  | unreadable
  /-- A value is of another kind than expected. -/
  | wrongValue
  /-- A section has no field of some name. -/
  | unknownField (name : Text) (expected : List Text)
  /-- The limit of passes is zero. -/
  | noPasses
  /-- The unit of global defaults has no name. -/
  | noGlobalUnit
  deriving DecidableEq, Repr

namespace ConfigFault

/-- A name between backticks. -/
def ticked (name : Text) : Text := '`' :: (name ++ ['`'])

/-- The choices for a name. -/
def choices : List Text → Text
  | [only] => ticked only
  | [first, second] => ticked first ++ " or " ++ ticked second
  | names => "one of " ++ List.intercalate [',', ' '] (names.map ticked)

/-- The wording of a fault. -/
def message : ConfigFault → Text
  | .unreadable => "the text is not TOML"
  | .wrongValue => "a value is not of the expected kind"
  | .unknownField name expected =>
      "unknown field " ++ ticked name ++ ", expected " ++ choices expected
  | .noPasses => "fallback.max_passes must be at least 1"
  | .noGlobalUnit => "layout.global_unit must not be empty"

end ConfigFault
end LessTheme
