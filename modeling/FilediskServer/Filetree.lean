import FilediskServer.CusInfo

/-! The `filetree` table and the three statements the TCP server sends about it. A
statement keeps its operands beside the text that the server builds from them. -/
namespace FilediskServer.Filetree
open Bytes

structure Row where
  userid : UInt64
  filepath : Bytes
  index : Option Int
  hashfilepath : Bytes
  dirid : Int
  filesize : Int
  deriving DecidableEq

/-- The columns `index`, `hashfilepath` and `filesize` of a result row; NULL is `none`. -/
structure Cells where
  index : Option Int
  hashfilepath : Option Bytes
  filesize : Option Int
  deriving DecidableEq

inductive Statement
  | insert (userid : UInt64) (filepath : Bytes) (index : Int) (hashfilepath : Bytes)
      (dirid filesize : Int)
  | selectFiles (uid dirid : UInt64) (filename : Bytes)
  | countPath (filename : Bytes)
  deriving DecidableEq

/-- The SQL text as the server concatenates it. -/
def Statement.text : Statement → Bytes
  | .insert userid filepath index hashfilepath dirid filesize =>
    ascii "insert into filetree (userid,filepath,index,hashfilepath,dirid,filesize) values ( " ++
      decimal userid.toNat ++ ascii "," ++ ascii "'" ++ filepath ++ ascii "'," ++ decimalInt index ++
      ascii ",'" ++ hashfilepath ++ ascii "'," ++ decimalInt dirid ++ ascii "," ++
      decimalInt filesize ++ ascii ");"
  | .selectFiles uid dirid filename =>
    ascii "select index,hashfilepath,filesize from filetree where userid=" ++ decimal uid.toNat ++
      ascii " and dirid=" ++ decimal dirid.toNat ++ ascii " and filepath= '" ++ filename ++ ascii "';"
  | .countPath filename =>
    ascii "select count(*) from filetree where hashfilepath= \"" ++ filename ++ ascii "\";"

/-- What the client library hands back; `none` is an error, or a NULL result set. -/
abbrev Statement.Result : Statement → Type
  | .insert .. => Bool
  | .selectFiles .. => Option (List Cells)
  | .countPath _ => Option Nat

def Row.cells (r : Row) : Cells := ⟨r.index,some r.hashfilepath,some r.filesize⟩

/-- The rows of the WHERE clause `userid=.. and dirid=.. and filepath=..`. -/
def Row.matchesFile (uid dirid : UInt64) (filename : Bytes) (r : Row) : Bool :=
  r.userid == uid && r.dirid == dirid.toNat && r.filepath == filename

def selected (table : List Row) (uid dirid : UInt64) (filename : Bytes) : List Row :=
  table.filter (Row.matchesFile uid dirid filename)

def pathCount (table : List Row) (path : Bytes) : Nat :=
  table.countP (·.hashfilepath == path)

theorem pathCount_pos {table : List Row} {path : Bytes} :
    0 < pathCount table path ↔ ∃ row ∈ table, row.hashfilepath = path := by
  simp [pathCount,List.countP_pos_iff]

end FilediskServer.Filetree
