import Mathlib.Data.Char
import Mathlib.Data.List.Lex
import OxidizedSystemd.Lib.SortedMap
import OxidizedSystemd.Lib.Text

/-!
# Uevents

Model of `UEvent` (`udevd/src/lib.rs`, lines 201–222), with the fields that the models read. A text
is the list of its characters.
-/

namespace OxidizedSystemd.Udevd

open Lib

abbrev Text := List Char

/-- `struct UEvent`. -/
structure UEvent where
  action : Text
  devpath : Text
  subsystem : Text
  devname : Text
  major : Text
  minor : Text
  env : SortedMap Text Text

end OxidizedSystemd.Udevd
