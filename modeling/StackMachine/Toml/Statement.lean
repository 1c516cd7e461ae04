/-!
# TOML statements

A document is a list of statements: headers that open a table or append an element to an array of tables,
and assignments. Names are paths of keys. Numbers with a fraction and dates are only told apart, since no
program file uses their value.
-/

set_option autoImplicit false

namespace StackMachine.Toml

abbrev Path := List String

/-- A value as it is written. -/
inductive Expr where
  | string (s : String)
  | integer (n : Int)
  | float
  | boolean (b : Bool)
  | moment
  | array (items : List Expr)
  | inline (entries : List (Path × Expr))

inductive Statement where
  | table (path : Path)
  | element (path : Path)
  | assign (path : Path) (value : Expr)

end StackMachine.Toml
