import FilediskServer.DownloadRecords

/-! The order in which a download sends the rows of a file: the one in which the database
returns them, which no clause of the statement asks for. -/
namespace FilediskServer.ChunkOrder
open Interaction Bytes CusInfo Redis Filetree Disk Calls SocketIO FileTask FileTaskRuns Downloads
open DownloadRecords

/-- What `getfilelist` may return. -/
def Fetched (cwd : File) (task : Nat) (w : World) (userid dirid : UInt64) (filename : Bytes)
    (list : List Item) : Prop :=
  ∃ w', Runs (Sys (calm cwd) task) (getfilelist userid dirid filename) w (.ok list) w'

/-- What the loop of `downloadfile` may write for a list. -/
def answers (cwd : File) (task : Nat) (w : World) (fh : Fileheader) (filename : Bytes)
    (list : List Item) : Set Bytes :=
  {output | ∃ out w', Runs (Sys (calm cwd) task) (sendFiles fh filename list) w out w' ∧
    w'.conn.output = output}

/-- The indexes sent ascend, and what is sent does not depend on the order of the rows. -/
def InOrder (cwd : File) (task : Nat) (w : World) (fh : Fileheader) (filename : Bytes)
    (userid : UInt64) : Prop :=
  (∀ list, Fetched cwd task w userid (toUnsigned fh.dirid) filename list →
    (list.map Prod.fst).Pairwise (· ≤ ·)) ∧
  ∀ list list', Fetched cwd task w userid (toUnsigned fh.dirid) filename list →
    Fetched cwd task w userid (toUnsigned fh.dirid) filename list' →
    answers cwd task w fh filename list = answers cwd task w fh filename list'

theorem mapM_item_forall₂ {cells : List Cells} {list : List Item} :
    cells.mapM Cells.item = some list ↔ List.Forall₂ (fun c x => Cells.item c = some x) cells list := by
  induction cells generalizing list with
  | nil => simp [eq_comm]
  | cons c cells ih =>
    constructor
    · intro found
      obtain ⟨first,rest,item,others,rfl⟩ := mapM_item_cons found
      exact .cons item (ih.mp others)
    · intro each
      cases each with
      | cons item others => simp [item,ih.mpr others]

section rows
variable {cwd : File} {task : Nat} {w : World} {fh : Fileheader} {filename : Bytes}
  {userid dirid : UInt64} {list list' : List Item}

theorem fetched_iff : Fetched cwd task w userid dirid filename list ↔
    ∃ cells : List Cells, cells.Perm ((selected w.store.table userid dirid filename).map Row.cells) ∧
      cells.mapM Cells.item = some list := by
  constructor
  · rintro ⟨w',run⟩
    refine wp_runs run (@wp_getfilelist _ _ _ (fun _ _ => True) _ _ _ (fun out _ => ∀ list, out = .ok list →
      ∃ cells : List Cells, cells.Perm ((selected w.store.table userid dirid filename).map Row.cells) ∧
        cells.mapM Cells.item = some list) trivial ?_ ?_) list rfl
    · rintro _ list ⟨⟩
    · intro cells order list returned
      cases found : cells.mapM Cells.item with
      | none => rw [found] at returned; cases returned
      | some list' =>
        rw [found] at returned
        cases returned
        exact ⟨cells,order,found⟩
  · rintro ⟨cells,order,found⟩
    have can : Can (Sys (calm cwd) task) (getfilelist userid dirid filename)
        (fun out _ => out = .ok list) w := by
      refine can_bind (can_ask ⟨rfl,.inl ⟨_,rfl,order⟩⟩ ?_)
      dsimp only [After]
      rw [found]
      exact can_ret rfl
    obtain ⟨_,w',run,rfl⟩ := can
    exact ⟨w',run⟩

/-- The rows can come with any of them first, or any two. -/
theorem fetched_front {rows : List Row} (complete : ∀ row ∈ rows, row.index ≠ none)
    (order : rows.Perm (selected w.store.table userid dirid filename)) :
    ∃ list, (rows.map Row.cells).mapM Cells.item = some list ∧
      Fetched cwd task w userid dirid filename list := by
  obtain ⟨list,found⟩ := (rows_fetched (.refl _)).mpr complete
  exact ⟨list,found,fetched_iff.mpr ⟨_,order.map _,found⟩⟩

theorem fetched_items (fetched : Fetched cwd task w userid dirid filename list) :
    (∀ row ∈ selected w.store.table userid dirid filename, row.index ≠ none) ∧
      list.length = (selected w.store.table userid dirid filename).length ∧
      ∀ x ∈ list, ∃ row ∈ selected w.store.table userid dirid filename,
        row.index = some x.1 ∧ toUnsigned row.filesize = x.2.2 := by
  obtain ⟨cells,order,found⟩ := fetched_iff.mp fetched
  have each := mapM_item_forall₂.mp found
  refine ⟨(rows_fetched order).mp ⟨list,found⟩,?_,fun x member => ?_⟩
  · rw [← each.length_eq,order.length_eq,List.length_map]
  · obtain ⟨c,inside,item⟩ : ∃ c ∈ cells, Cells.item c = some x := by
      obtain ⟨i,at_⟩ := List.mem_iff_get.mp member
      have bound : i.1 < cells.length := by rw [each.length_eq]; exact i.2
      refine ⟨cells.get ⟨i.1,bound⟩,List.get_mem ..,?_⟩
      rw [← at_]
      exact each.get bound i.2
    obtain ⟨row,selected,rfl⟩ := List.mem_map.mp (order.mem_iff.mp inside)
    rw [item_cells] at item
    obtain ⟨index,held,rfl⟩ := Option.map_eq_some_iff.mp item
    exact ⟨row,selected,held,rfl⟩

/-- The path of a row is not looked at. -/
theorem sendFiles_congr (same : list.map (fun x => (x.1,x.2.2)) = list'.map fun x => (x.1,x.2.2)) :
    sendFiles fh filename list = sendFiles fh filename list' := by
  induction list generalizing list' with
  | nil =>
    obtain rfl := List.map_eq_nil_iff.mp same.symm
    rfl
  | cons x list ih =>
    obtain ⟨y,rest,rfl,first,others⟩ := List.map_eq_cons_iff.mp same.symm
    obtain ⟨index,path,size⟩ := x
    obtain ⟨index',path',size'⟩ := y
    obtain ⟨rfl,rfl⟩ := Prod.ext_iff.mp first
    unfold sendFiles
    rw [ih others.symm]

theorem sentFiles_grows {env : Env} {w' : World} (sent : SentFiles env fh filename list w w') :
    ∃ more, w'.conn.output = w.conn.output ++ more := by
  induction sent with
  | nil | notOpened => exact ⟨[],(List.append_nil _).symm⟩
  | cons first _ ih =>
    obtain ⟨more,output⟩ := ih
    cases first with
    | mk =>
      rw [output]
      exact ⟨_,by simp only [Conn.wrote,List.append_assoc]; rfl⟩

/-- Every answer starts with the header of the first row. -/
theorem answers_header {x : Item} {output : Bytes} (member : output ∈ answers cwd task w fh filename (x :: list)) :
    ∃ raw more, raw.length = sizeofFileheader ∧ output = w.conn.output ++
      (Fileheader.assigned raw fh.dirid x.1 false (toSigned x.2.2) ++ more) := by
  obtain ⟨out,w',run,rfl⟩ := member
  have sent : SentFiles (calm cwd) fh filename (x :: list) w w' :=
    wp_runs run (@wp_sendFiles _ _ _ (fun _ _ => True) _ _ _ (fun _ w' => SentFiles (calm cwd) fh filename
      (x :: list) w w') (fun _ _ _ => trivial) fun _ sent => sent)
  cases sent with
  | notOpened _ fails => exact absurd trivial (fails.resolve_left id)
  | cons first others =>
    obtain ⟨more,grown⟩ := sentFiles_grows others
    cases first with
    | @mk _ index filepath raw head body filesize data opened mapped fresh headed sent =>
      have header : head = Fileheader.assigned raw fh.dirid index false (toSigned filesize) := by
        have whole := headed.whole not_false (length_assigned fresh _ _ _ _).ge
        rw [whole]
        exact List.take_of_length_le (length_assigned fresh _ _ _ _).le
      refine ⟨raw,body ++ more,fresh,?_⟩
      rw [grown,header]
      simp only [Conn.wrote,List.append_assoc]

theorem toSigned_injective : Function.Injective toSigned := by
  intro x y same
  have residues : toSigned x % (2 ^ 64 : Nat) = toSigned y % (2 ^ 64 : Nat) := by rw [same]
  unfold toSigned at residues
  rw [Int.bmod_emod,Int.bmod_emod] at residues
  have small := x.toNat_lt
  have small' := y.toNat_lt
  apply UInt64.toNat_inj.mp
  omega

/-- Lists that are answered alike start with the same size. -/
theorem answers_size {x y : Item}
    (same : answers cwd task w fh filename (x :: list) = answers cwd task w fh filename (y :: list')) :
    x.2.2 = y.2.2 := by
  obtain ⟨out,w',run,-,-,-⟩ := @can_sendFiles (calm cwd) task fh filename trivial (x :: list) w
  have member : w'.conn.output ∈ answers cwd task w fh filename (x :: list) := ⟨out,w',run,rfl⟩
  obtain ⟨raw,more,fresh,output⟩ := answers_header member
  obtain ⟨raw',more',fresh',output'⟩ := answers_header (same ▸ member)
  obtain ⟨header,-⟩ := List.append_inj (List.append_cancel_left (output.symm.trans output'))
    ((length_assigned fresh _ _ _ _).trans (length_assigned fresh' _ _ _ _).symm)
  have bounds := toSigned_bounds x.2.2
  have bounds' := toSigned_bounds y.2.2
  have announced := congrArg (fun b => (Fileheader.read b).filelen) header
  rw [filelen_assigned fresh _ _ _ bounds.1 bounds.2,filelen_assigned fresh' _ _ _ bounds'.1 bounds'.2]
    at announced
  exact toSigned_injective announced

end rows

/-- Two rows that a download cannot tell apart. -/
def Alike (r r' : Row) : Prop := r.index = r'.index ∧ toUnsigned r.filesize = toUnsigned r'.filesize

section order
variable {cwd : File} {task : Nat} {w : World} {fh : Fileheader} {filename : Bytes} {userid : UInt64}

theorem alike_of_inOrder (inOrder : InOrder cwd task w fh filename userid)
    (complete : ∀ row ∈ selected w.store.table userid (toUnsigned fh.dirid) filename, row.index ≠ none)
    {r r' : Row} (member : r ∈ selected w.store.table userid (toUnsigned fh.dirid) filename)
    (member' : r' ∈ selected w.store.table userid (toUnsigned fh.dirid) filename) : Alike r r' := by
  by_cases same : r = r'
  · exact same ▸ ⟨rfl,rfl⟩
  have second : r' ∈ (selected w.store.table userid (toUnsigned fh.dirid) filename).erase r :=
    (List.mem_erase_of_ne (Ne.symm same)).mpr member'
  obtain ⟨rest,order⟩ : ∃ rest, (selected w.store.table userid (toUnsigned fh.dirid) filename).Perm
      (r :: r' :: rest) :=
    ⟨_,(List.perm_cons_erase member).trans ((List.perm_cons_erase second).cons r)⟩
  -- The two rows come first in either order.
  have all : ∀ row ∈ r :: r' :: rest, row.index ≠ none :=
    fun row inside => complete row (order.mem_iff.mpr inside)
  obtain ⟨list,found,fetched⟩ := fetched_front  all order.symm
  obtain ⟨list',found',fetched'⟩ := fetched_front 
    (fun row inside => all row ((List.Perm.swap r r' rest).mem_iff.mp inside))
    ((List.Perm.swap r r' rest).trans order.symm)
  rw [List.map_cons,List.map_cons] at found found'
  obtain ⟨x,_,item,others,rfl⟩ := mapM_item_cons found
  obtain ⟨y,_,item',_,rfl⟩ := mapM_item_cons others
  obtain ⟨y',_,again,others',rfl⟩ := mapM_item_cons found'
  obtain ⟨x',_,again',_,rfl⟩ := mapM_item_cons others'
  obtain rfl := Option.some.inj (item'.symm.trans again)
  obtain rfl := Option.some.inj (item.symm.trans again')
  rw [item_cells] at item item'
  obtain ⟨i,held,rfl⟩ := Option.map_eq_some_iff.mp item
  obtain ⟨i',held',rfl⟩ := Option.map_eq_some_iff.mp item'
  have up := inOrder.1 _ fetched
  have down := inOrder.1 _ fetched'
  simp only [List.map_cons,List.pairwise_cons,List.mem_cons,forall_eq_or_imp] at up down
  have index : i = i' := le_antisymm up.1.1 down.1.1
  exact ⟨by rw [held,held',index],answers_size (inOrder.2 _ _ fetched fetched')⟩

theorem inOrder_of_alike
    (alike : ∀ r ∈ selected w.store.table userid (toUnsigned fh.dirid) filename,
      ∀ r' ∈ selected w.store.table userid (toUnsigned fh.dirid) filename, Alike r r') :
    InOrder cwd task w fh filename userid := by
  have equal {list list' : List Item} {x y : Item}
      (fetched : Fetched cwd task w userid (toUnsigned fh.dirid) filename list)
      (fetched' : Fetched cwd task w userid (toUnsigned fh.dirid) filename list')
      (member : x ∈ list) (member' : y ∈ list') : x.1 = y.1 ∧ x.2.2 = y.2.2 := by
    obtain ⟨r,inside,index,size⟩ := (fetched_items fetched).2.2 x member
    obtain ⟨r',inside',index',size'⟩ := (fetched_items fetched').2.2 y member'
    obtain ⟨sameIndex,sameSize⟩ := alike r inside r' inside'
    rw [index,index'] at sameIndex
    exact ⟨Option.some.inj sameIndex,by rw [← size,← size',sameSize]⟩
  constructor
  · intro list fetched
    rw [List.pairwise_map]
    exact List.pairwise_of_forall_mem_list fun x member y member' =>
      (equal fetched fetched member member').1.le
  · intro list list' fetched fetched'
    have length : list.length = list'.length :=
      (fetched_items fetched).2.1.trans (fetched_items fetched').2.1.symm
    have same : list.map (fun x => (x.1,x.2.2)) = list'.map fun x => (x.1,x.2.2) := by
      apply List.ext_getElem (by simpa using length)
      intro i low high
      rw [List.length_map] at low high
      rw [List.getElem_map,List.getElem_map]
      obtain ⟨index,size⟩ := equal fetched fetched' (List.getElem_mem low) (List.getElem_mem high)
      rw [index,size]
    unfold answers
    rw [sendFiles_congr same]

/-- Chunks come in order whatever the database does exactly when the download cannot tell its
rows apart, or ends at a row without an index. -/
theorem inOrder_iff : InOrder cwd task w fh filename userid ↔
    (∃ row ∈ selected w.store.table userid (toUnsigned fh.dirid) filename, row.index = none) ∨
      ∀ r ∈ selected w.store.table userid (toUnsigned fh.dirid) filename,
        ∀ r' ∈ selected w.store.table userid (toUnsigned fh.dirid) filename, Alike r r' := by
  constructor
  · intro inOrder
    by_cases null : ∃ row ∈ selected w.store.table userid (toUnsigned fh.dirid) filename, row.index = none
    · exact .inl null
    · push Not at null
      exact .inr fun r member r' member' => alike_of_inOrder inOrder null member member'
  · rintro (⟨row,member,null⟩ | alike)
    · have none (list : List Item)
          (fetched : Fetched cwd task w userid (toUnsigned fh.dirid) filename list) : False :=
        (fetched_items fetched).1 row member null
      exact ⟨fun list fetched => (none list fetched).elim,fun list _ fetched => (none list fetched).elim⟩
    · exact inOrder_of_alike alike

end order

/-- The second chunk of a file was uploaded before the first. -/
def sampleTable : List Row :=
  [⟨1,ascii "f",some 1,ascii "p",0,1⟩,⟨1,ascii "f",some 0,ascii "q",0,1⟩]

theorem chunks_reversed : ¬ ∀ (cwd : File) (task : Nat) (w : World) (fh : Fileheader) (filename : Bytes)
    (userid : UInt64), InOrder cwd task w fh filename userid := by
  intro claim
  obtain ⟨ascends,-⟩ := claim [] 0 ⟨⟨[],true,[]⟩,⟨⟨fun _ => none,[]⟩,sampleTable,fun _ => none⟩⟩
    sampleHeader (ascii "f") 1
  have fetched := ascends [(1,ascii "p",1),(0,ascii "q",1)]
    (fetched_iff.mpr ⟨_,.refl _,by decide +kernel⟩)
  exact absurd fetched (by decide)

end FilediskServer.ChunkOrder
