/-! The causes for which a text is not a document, or a document does not hold what its reader asks
for. -/

set_option autoImplicit false

namespace Tilewalk.Toml

inductive Error where
  | unexpectedEnd
  | unexpected (found : Char)
  | badEscape
  | badNumber (text : String)
  | outOfRange (text : String)
  | badDate (text : String)
  | tooDeep
  /-- A key is defined twice, or a table is extended in a way that its form does not allow. -/
  | redefined (key : String)
  | wrongType (expected : String)
  | missing (key : String)
  | unknownWord (word : String)
deriving DecidableEq

end Tilewalk.Toml
