import FilediskServer.DirServices
import Mathlib.Data.List.Forall2

/-! The rows behind the directory services. A row names its directory in `dirid`, and -2 stands for
no directory. The two statements are read as they were meant. -/
namespace FilediskServer.DirInfoServer
open Bytes Filetree Mysql FileTask

/-- A row of `filetree` with the column that the directory services ask for. -/
structure Node extends Row where
  id : UInt64
  deriving DecidableEq

/-- `where userid=.. and dirid=..` -/
def Node.isChild (userid dirid : UInt64) (node : Node) : Bool :=
  node.userid == userid && node.dirid == dirid.toNat

def children (table : List Node) (userid dirid : UInt64) : List Node :=
  table.filter (Node.isChild userid dirid)

/-- `update filetree set dirid=-2` -/
def Node.remove (userid dirid : UInt64) (node : Node) : Node :=
  if node.isChild userid dirid then {node with dirid := -2} else node

def removed (table : List Node) (userid dirid : UInt64) : List Node := table.map (Node.remove userid dirid)

/-- MySQL on the statement of `DirRm`. -/
inductive Updates (table : List Node) (userid dirid : UInt64) : Cursor → List Node → Prop
  | updated (insertId : UInt64) (rows : List (List MySQLCell)) :
      Updates table userid dirid ⟨.ok,insertId,(children table userid dirid).length,rows⟩
        (removed table userid dirid)
  | failed {cursor : Cursor} (bad : cursor.status ≠ .ok) : Updates table userid dirid cursor table

/-- A removal whose statement names the user. -/
inductive Removal (table : List Node) (userid : UInt64) (request : DirInfo) : DirRet → List Node → Prop
  | intro {reply : RedisValue} {cursor : Cursor} {ret : DirRet} {table' : List Node}
      (issued : Service.dirRm.redisCallback request reply =
        .query (DirRm.sql (toUnsigned request.dirid) (decimal userid.toNat)))
      (executed : Updates table userid (toUnsigned request.dirid) cursor table')
      (served : Service.dirRm.serve request reply cursor = some ret) :
      Removal table userid request ret table'

def listed (table : List Node) (userid dirid : UInt64) : List UInt64 :=
  (children table userid dirid).map (·.id)

/-- What Redis holds for a user who is named by the digits of their number. -/
def sessionReply (userid : UInt64) : RedisValue :=
  .array ((sessionFields userid (decimal userid.toNat)).flatMap fun field => [field.1,field.2])

/-- The entry is in no directory that held it, and every other entry is where it was. -/
structure RemovesOnly (table table' : List Node) (userid entry : UInt64) : Prop where
  gone : ∀ dirid, entry ∈ listed table userid dirid → entry ∉ listed table' userid dirid
  others : ∀ userid dirid id, id ≠ entry → (id ∈ listed table' userid dirid ↔ id ∈ listed table userid dirid)

section rows
variable {table : List Node} {userid dirid id : UInt64} {node : Node}

theorem isChild_iff : node.isChild userid dirid = true ↔ node.userid = userid ∧ node.dirid = dirid.toNat := by
  simp [Node.isChild]

theorem mem_children : node ∈ children table userid dirid ↔
    node ∈ table ∧ node.userid = userid ∧ node.dirid = dirid.toNat := by
  rw [children,List.mem_filter,isChild_iff]

theorem mem_listed : id ∈ listed table userid dirid ↔
    ∃ node ∈ table, node.id = id ∧ node.userid = userid ∧ node.dirid = dirid.toNat := by
  simp only [listed,List.mem_map,mem_children]
  constructor
  · rintro ⟨node,⟨inside,own⟩,same⟩
    exact ⟨node,inside,same,own⟩
  · rintro ⟨node,inside,same,own⟩
    exact ⟨node,⟨inside,own⟩,same⟩

theorem remove_child (child : node.isChild userid dirid = true) :
    node.remove userid dirid = {node with dirid := -2} := if_pos child

theorem remove_other (other : ¬ node.isChild userid dirid = true) : node.remove userid dirid = node :=
  if_neg other

theorem mem_listed_removed {u d : UInt64} : id ∈ listed (removed table u d) userid dirid ↔
    ∃ node ∈ table, ¬ node.isChild u d = true ∧ node.id = id ∧ node.userid = userid ∧
      node.dirid = dirid.toNat := by
  simp only [mem_listed,removed,List.mem_map,exists_exists_and_eq_and]
  apply exists_congr
  intro node
  by_cases child : node.isChild u d = true
  · rw [remove_child child]
    -- No number of a directory is negative.
    have hidden : (-2 : Int) ≠ dirid.toNat := by omega
    simp [child,hidden]
  · simp [remove_other child,child]

theorem removed_eq_iff : removed table userid dirid = table ↔ children table userid dirid = [] := by
  rw [children,List.filter_eq_nil_iff,removed,List.map_eq_iff]
  constructor
  · intro same node inside child
    obtain ⟨i,bound,rfl⟩ := List.getElem_of_mem inside
    have kept := same i
    rw [List.getElem?_eq_getElem bound,Option.map_some,remove_child child] at kept
    have hidden : table[i].dirid = -2 := congrArg (·.dirid) (Option.some.inj kept)
    have named := (isChild_iff.mp child).2
    omega
  · intro none i
    cases found : table[i]? with
    | none => rfl
    | some node => rw [Option.map_some,remove_other (none node (List.mem_of_getElem? found))]

end rows

section removal
variable {table table' : List Node} {userid : UInt64} {request : DirInfo} {ret : DirRet}

theorem callback_code (cursor : Cursor) : (DirRm.callback cursor).code =
    if cursor.status = .ok ∧ cursor.affectedRows = 1 then 0 else -1 := by
  unfold DirRm.callback
  split_ifs <;> rfl

theorem removal_cases (removal : Removal table userid request ret table') :
    (table' = removed table userid (toUnsigned request.dirid) ∧ ret.code =
      if (children table userid (toUnsigned request.dirid)).length = 1 then 0 else -1) ∨
    (table' = table ∧ ret.code = -1) := by
  obtain ⟨issued,executed,served⟩ := removal
  rw [Service.serve,issued] at served
  obtain rfl := Option.some.inj served
  rw [callback_code]
  cases executed with
  | updated => exact .inl ⟨rfl,by simp⟩
  | failed bad => exact .inr ⟨rfl,if_neg fun executed => bad executed.1⟩

/-- MySQL may carry the statement out, for a user with a session. -/
theorem removal_executed (table : List Node) (userid : UInt64) (request : DirInfo) :
    ∃ ret, Removal table userid request ret (removed table userid (toUnsigned request.dirid)) ∧ ret.code =
      if (children table userid (toUnsigned request.dirid)).length = 1 then 0 else -1 :=
  ⟨_,@Removal.intro table userid request (sessionReply userid) _ _ _ rfl (.updated 0 []) rfl,
    (callback_code _).trans (by simp)⟩

variable {entry : UInt64}

/-- Where the children are the entry alone, the update takes the entry out. -/
theorem removesOnly_removed
    (self : ∀ node ∈ table, node.isChild userid entry = true ↔ node.id = entry) :
    RemovesOnly table (removed table userid entry) userid entry := by
  constructor
  · intro dirid _ after
    obtain ⟨node,inside,apart,ids,_⟩ := mem_listed_removed.mp after
    exact apart ((self node inside).mpr ids)
  · intro user dirid id other
    rw [mem_listed_removed,mem_listed]
    constructor
    · rintro ⟨node,inside,_,listed⟩
      exact ⟨node,inside,listed⟩
    · rintro ⟨node,inside,ids,listed⟩
      exact ⟨node,inside,fun found => other (ids.symm.trans ((self node inside).mp found)),ids,listed⟩

/-- The update takes every child out. -/
theorem child_is_entry (unique : (table.map (·.id)).Nodup)
    (kept : RemovesOnly table (removed table userid entry) userid entry) {child : Node}
    (found : child ∈ children table userid entry) : child.id = entry := by
  obtain ⟨inside,own,named⟩ := mem_children.mp found
  by_contra other
  have before := mem_listed.mpr ⟨child,inside,rfl,own,named⟩
  obtain ⟨node,there,apart,ids,_⟩ := mem_listed_removed.mp ((kept.others _ _ _ other).mpr before)
  obtain rfl := List.inj_on_of_nodup_map unique there inside ids
  exact apart (isChild_iff.mpr ⟨own,named⟩)

theorem isChild_self (unique : (table.map (·.id)).Nodup) {child node : Node}
    (only : children table userid entry = [child]) (self : child.id = entry) (inside : node ∈ table) :
    node.isChild userid entry = true ↔ node.id = entry := by
  obtain ⟨here,own,named⟩ := mem_children.mp (only ▸ List.mem_singleton_self child)
  constructor
  · intro found
    have found := mem_children.mpr ⟨inside,isChild_iff.mp found⟩
    rw [only] at found
    rw [List.mem_singleton.mp found]
    exact self
  · intro ids
    obtain rfl := List.inj_on_of_nodup_map unique inside here (ids.trans self.symm)
    exact isChild_iff.mpr ⟨own,named⟩

/-- A removal that is answered by code 0 takes out the entry and nothing else just when an only
child of the directory is the directory itself. -/
theorem removes_only_iff (unique : (table.map (·.id)).Nodup) :
    (∀ ret table', Removal table userid request ret table' → ret.code = 0 →
      RemovesOnly table table' userid (toUnsigned request.dirid)) ↔
    ∀ child, children table userid (toUnsigned request.dirid) = [child] →
      child.id = toUnsigned request.dirid := by
  constructor
  · intro right child only
    obtain ⟨ret,removal,code⟩ := removal_executed table userid request
    have kept := right ret _ removal (by rw [code,only]; rfl)
    exact child_is_entry unique kept (only ▸ List.mem_singleton_self child)
  · intro only ret table' removal success
    rcases removal_cases removal with ⟨rfl,code⟩ | ⟨_,code⟩
    · have single : (children table userid (toUnsigned request.dirid)).length = 1 := by
        by_contra many
        rw [code,if_neg many] at success
        cases success
      obtain ⟨child,shape⟩ := List.length_eq_one_iff.mp single
      exact removesOnly_removed fun node inside => isChild_self unique shape (only child shape) inside
    · rw [code] at success
      cases success

/-- A removal that is refused leaves the table as it is just when the directory has no more than
one child. -/
theorem refused_unchanged_iff (table : List Node) (userid : UInt64) (request : DirInfo) :
    (∀ ret table', Removal table userid request ret table' → ret.code = -1 → table' = table) ↔
      (children table userid (toUnsigned request.dirid)).length ≤ 1 := by
  constructor
  · intro unchanged
    by_contra many
    obtain ⟨ret,removal,code⟩ := removal_executed table userid request
    rw [if_neg (by omega)] at code
    have none := removed_eq_iff.mp (unchanged ret _ removal code)
    rw [none] at many
    exact many (Nat.zero_le _)
  · intro few ret table' removal refused
    rcases removal_cases removal with ⟨rfl,code⟩ | ⟨same,_⟩
    · have other : (children table userid (toUnsigned request.dirid)).length ≠ 1 := by
        intro single
        rw [code,if_pos single] at refused
        cases refused
      exact removed_eq_iff.mpr (List.length_eq_zero_iff.mp (by omega))
    · exact same

end removal

/-- Directory 5 with the files 8 and 9. -/
def sampleTable : List Node :=
  [⟨⟨1,ascii "music",none,[],0,0⟩,5⟩,⟨⟨1,ascii "a",some 0,[],5,3⟩,8⟩,⟨⟨1,ascii "b",some 0,[],5,4⟩,9⟩]

def sampleRemoval : DirInfo := ⟨5,ascii "music",ascii "s1"⟩

theorem sample_removes_only_iff :
    (∀ ret table', Removal (sampleTable.take 2) 1 sampleRemoval ret table' → ret.code = 0 →
      RemovesOnly (sampleTable.take 2) table' 1 (toUnsigned 5)) ↔
    ∀ child, children (sampleTable.take 2) 1 (toUnsigned 5) = [child] → child.id = toUnsigned 5 :=
  @removes_only_iff (sampleTable.take 2) 1 sampleRemoval (by decide)

/-- Where the directory has one file, the file is removed. -/
theorem child_removed : ¬ ∀ (table : List Node) (userid : UInt64) (request : DirInfo),
    (table.map (·.id)).Nodup →
    (∃ node ∈ table, node.id = toUnsigned request.dirid ∧ node.userid = userid) →
    ∀ ret table', Removal table userid request ret table' → ret.code = 0 →
      RemovesOnly table table' userid (toUnsigned request.dirid) := by
  intro claim
  obtain ⟨ret,removal,code⟩ := removal_executed (sampleTable.take 2) 1 sampleRemoval
  have kept := claim _ _ _ (by decide) (by decide) ret _ removal code
  have file := (kept.others 1 5 8 (by decide)).mpr (by decide)
  exact absurd file (by decide)

/-- Where it has two, both are removed, and the answer is an error. -/
theorem children_removed : ¬ ∀ (table : List Node) (userid : UInt64) (request : DirInfo) ret table',
    Removal table userid request ret table' → ret.code = -1 → table' = table := by
  intro claim
  obtain ⟨ret,removal,code⟩ := removal_executed sampleTable 1 sampleRemoval
  have same := claim _ _ _ ret _ removal code
  exact absurd same (by decide)

/-! The rows of a query. -/

/-- A row of the result: `id`, `name`, `index` and `filesize`. An index may be NULL. -/
def Node.Shows (node : Node) (row : List MySQLCell) : Prop :=
  ∃ id name index filesize : MySQLCell, row = [id,name,index,filesize] ∧ id.asUlonglong = node.id ∧
    name.asString = node.filepath ∧ (∀ i, node.index = some i → index.asInt = i) ∧
    filesize.asUlonglong = toUnsigned node.filesize

/-- MySQL on the statement of `DirQuery`: the rows in the order of the result. -/
structure Returns (table : List Node) (userid dirid : UInt64) (result : List Node) (cursor : Cursor) :
    Prop where
  status : cursor.status = .getResult
  rows : result.Perm (children table userid dirid)
  cells : List.Forall₂ Node.Shows result cursor.rows

def Node.Object (node : Node) (json : Json) : Prop :=
  ∃ index, (∀ i, node.index = some i → index = i) ∧
    json = DirQuery.object node.id node.filepath index (toUnsigned node.filesize)

/-- Code 0, and one object for each row. -/
def Complete (result : List Node) (ret : DirRet) : Prop :=
  ∃ data, ret = DirQuery.listing data ∧ List.Forall₂ Node.Object result data

section query
variable {table result : List Node} {userid : UInt64} {request : DirInfo} {reply : RedisValue}
  {cursor : Cursor}

theorem rowjson_shows {node : Node} {row : List MySQLCell} (shows' : node.Shows row) :
    ∃ json, DirQuery.rowjson row = some json ∧ node.Object json := by
  obtain ⟨id,name,index,filesize,rfl,ofId,ofName,ofIndex,ofSize⟩ := shows'
  exact ⟨_,rfl,index.asInt,ofIndex,by rw [ofId,ofName,ofSize]⟩

theorem mapM_rowjson {rows : List (List MySQLCell)} (cells : List.Forall₂ Node.Shows result rows) :
    ∃ data, rows.mapM DirQuery.rowjson = some data ∧ List.Forall₂ Node.Object result data := by
  induction cells with
  | nil => exact ⟨[],rfl,.nil⟩
  | cons first _ ih =>
    obtain ⟨json,read,object⟩ := rowjson_shows first
    obtain ⟨data,others,objects⟩ := ih
    exact ⟨json :: data,by simp [read,others],.cons object objects⟩

/-- A listing is complete just when the cursor has the status that the callback asks for. -/
theorem complete_iff_ok (cells : List.Forall₂ Node.Shows result cursor.rows) :
    (∃ ret, DirQuery.callback cursor = some ret ∧ Complete result ret) ↔ cursor.status = .ok := by
  unfold DirQuery.callback
  constructor
  · rintro ⟨ret,answered,data,rfl,_⟩
    split_ifs at answered with ok
    · exact ok
    · cases answered
  · intro ok
    obtain ⟨data,read,objects⟩ := mapM_rowjson cells
    exact ⟨_,by rw [if_pos ok,read]; rfl,data,rfl,objects⟩

/-- A query whose statement has returned its rows is refused. -/
theorem never_complete
    (issued : Service.dirQuery.redisCallback request reply =
      .query (DirQuery.sql (toUnsigned request.dirid) (decimal userid.toNat)))
    (returned : Returns table userid (toUnsigned request.dirid) result cursor) :
    Service.dirQuery.serve request reply cursor = some refusal ∧
      ¬ ∃ ret, Service.dirQuery.serve request reply cursor = some ret ∧ Complete result ret := by
  have served : Service.dirQuery.serve request reply cursor = DirQuery.callback cursor := by
    rw [Service.serve,issued]
    rfl
  have other : cursor.status ≠ .ok := by
    rw [returned.status]
    decide
  rw [served,complete_iff_ok returned.cells]
  exact ⟨if_neg other,other⟩

end query

def sampleCursor : Cursor :=
  ⟨.getResult,0,0,[[⟨8,[],0⟩,⟨0,ascii "a",0⟩,⟨0,[],0⟩,⟨3,[],0⟩],[⟨9,[],0⟩,⟨0,ascii "b",0⟩,⟨0,[],0⟩,⟨4,[],0⟩]]⟩

theorem sample_returns : Returns sampleTable 1 (toUnsigned 5) (sampleTable.drop 1) sampleCursor where
  status := rfl
  rows := by decide
  cells := by
    refine .cons ⟨_,_,_,_,rfl,rfl,rfl,?_,rfl⟩ (.cons ⟨_,_,_,_,rfl,rfl,rfl,?_,rfl⟩ .nil) <;>
      exact fun i held => Option.some.inj held

theorem sample_never_complete :
    Service.dirQuery.serve sampleRemoval (sessionReply 1) sampleCursor = some refusal ∧
      ¬ ∃ ret, Service.dirQuery.serve sampleRemoval (sessionReply 1) sampleCursor = some ret ∧
        Complete (sampleTable.drop 1) ret :=
  @never_complete sampleTable (sampleTable.drop 1) 1 sampleRemoval (sessionReply 1) sampleCursor
    rfl sample_returns

theorem listing_refused : ¬ ∀ (table result : List Node) (userid : UInt64) (request : DirInfo)
    (reply : RedisValue) (cursor : Cursor), Service.dirQuery.redisCallback request reply =
      .query (DirQuery.sql (toUnsigned request.dirid) (decimal userid.toNat)) →
    Returns table userid (toUnsigned request.dirid) result cursor →
    ∃ ret, Service.dirQuery.serve request reply cursor = some ret ∧ Complete result ret := by
  intro claim
  obtain ⟨ret,served,data,rfl,_⟩ := claim sampleTable (sampleTable.drop 1) 1 sampleRemoval
    (sessionReply 1) sampleCursor rfl sample_returns
  cases Option.some.inj served

end FilediskServer.DirInfoServer
