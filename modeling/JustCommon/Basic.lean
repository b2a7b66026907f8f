import Mathlib.Data.UInt

/-!
# Byte strings, error codes, configuration

The data the modules of the library pass around. A `std::string` is its
bytes, a `boost::system::error_code` is one of the codes the source names
or a code a framework call returned, and a configuration is the map from a
section and a key to a value.
-/

namespace JustCommon

abbrev Bytes := List UInt8

/-- A string literal of the source. -/
def ascii (s : String) : Bytes := s.toList.map fun c => c.toNat.toUInt8

/-- The separator `'|'` of the wire texts. -/
def bar : UInt8 := 124

inductive ErrorCode where
  | success
  /-- `framework::system::logic_error::invalid_argument` -/
  | invalidArgument
  /-- `framework::system::logic_error::item_already_exist` -/
  | itemAlreadyExist
  /-- `framework::system::logic_error::item_not_exist` -/
  | itemNotExist
  /-- `just::common::error::invalid_url` -/
  | invalidUrl
  /-- What a framework call returned, with its numeric value. -/
  | other (value : Int)
deriving DecidableEq, Repr

/-- `if (ec)`: the numeric value is not zero. -/
def ErrorCode.failed : ErrorCode → Bool
  | .success => false
  | .other value => value != 0
  | _ => true

abbrev Config := Bytes → Bytes → Option Bytes

/-- `config().set(section, key, value)` -/
def Config.set (c : Config) (sec key value : Bytes) : Config :=
  fun sec' key' => if sec' = sec ∧ key' = key then some value else c sec' key'

end JustCommon
