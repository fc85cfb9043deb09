import LuaTestcase.Lua.String

/-!
# Lua values

What the modelled functions can see of a Lua value: its type name, its truth, and, for the two
kinds they look into, the string itself and the debug information of a function.  Functions are
elements of an arbitrary type `F` and the values no function inspects (tables, full userdata,
threads, floats) carry an arbitrary payload `U`; both are parameters, so every result below holds
whatever user code puts there.
-/

namespace Testcase

/-- An error object of the `errno` module: the number of the error and the failed operation. -/
structure SysError where
  type : Nat
  op : Str
deriving DecidableEq, Repr

/-- `require('errno').ENOENT`. -/
def ENOENT : Nat := 2

/-- The results of `type`. -/
inductive LuaType where
  | nil
  | boolean
  | number
  | string
  | function
  | table
  | userdata
  | thread
deriving DecidableEq, Repr

/-- The string `type` returns. -/
def LuaType.name : LuaType → Str
  | nil => "nil".toList
  | boolean => "boolean".toList
  | number => "number".toList
  | string => "string".toList
  | function => "function".toList
  | table => "table".toList
  | userdata => "userdata".toList
  | thread => "thread".toList

/-- The kinds of values that no modelled function looks into. -/
inductive Kind where
  | table
  | userdata
  | thread
  | float
deriving DecidableEq, Repr

/-- A Lua value over functions `F` and uninspected payloads `U`. -/
inductive Value (F U : Type) where
  | nil
  | boolean (b : Bool)
  | integer (n : Int)
  | string (s : Str)
  | function (f : F)
  | error (e : SysError)
  | object (k : Kind) (u : U)

namespace Value

variable {F U : Type}

/-- `type(v)`; an error object is a userdata. -/
def type : Value F U → LuaType
  | nil => .nil
  | boolean _ => .boolean
  | integer _ => .number
  | string _ => .string
  | function _ => .function
  | error _ => .userdata
  | object .table _ => .table
  | object .userdata _ => .userdata
  | object .thread _ => .thread
  | object .float _ => .number

/-- Lua's truth: everything but `nil` and `false`. -/
def truthy : Value F U → Bool
  | nil => false
  | boolean b => b
  | _ => true

end Value

/-- What `debug.getinfo(func, 'nS')` reports of a function: where it comes from and the line its
definition starts at. -/
structure FuncInfo where
  source : Str
  linedefined : Int

end Testcase
