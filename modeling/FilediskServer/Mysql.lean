import FilediskServer.Library.Bytes

/-! What Workflow's MySQL client hands to a callback. -/
namespace FilediskServer.Mysql

/-- `MYSQL_STATUS_..`. An ok packet is `ok`; a result set is `getResult`, with rows or without. -/
inductive Status
  | notInit
  | ok
  | getResult
  | error
  | ended
  deriving DecidableEq

/-- INT is `MYSQL_TYPE_LONG`, BIGINT is `MYSQL_TYPE_LONGLONG`. -/
inductive DataType
  | long
  | longlong
  deriving DecidableEq

/-- `MySQLCell::as_ulonglong`: a cell of another type than BIGINT gives -1. -/
def DataType.asUlonglong (type : DataType) (value : UInt64) : UInt64 :=
  match type with
  | longlong => value
  | long => -1

theorem DataType.asUlonglong_eq_iff {type : DataType} {value : UInt64} :
    type.asUlonglong value = value ↔ type = .longlong ∨ value = -1 := by
  cases type with
  | long => simp [asUlonglong,eq_comm]
  | longlong => simp [asUlonglong]

structure MySQLResultCursor (ρ : Type) where
  status : Status
  insertId : UInt64
  affectedRows : Nat
  rows : List ρ

end FilediskServer.Mysql
