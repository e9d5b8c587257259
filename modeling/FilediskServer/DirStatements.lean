import FilediskServer.DirServices
import FilediskServer.Library.SqlText

/-! The statements of the directory services as MySQL reads them. No blank stands between the
number of the user and what follows it, and no quote or comma around a name. -/
namespace FilediskServer.DirInfoServer
open Bytes FileTask SqlText

inductive Literal
  | number (value : Int)
  | text (value : Bytes)

/-- The literals that an expression may be. -/
inductive Denotes : List Token → Literal → Prop
  | number {digits : Bytes} (some : digits ≠ []) (all : ∀ b ∈ digits, isDigit b = true) :
      Denotes [.word digits] (.number (digitsValue digits))
  | negative {digits : Bytes} (some : digits ≠ []) (all : ∀ b ∈ digits, isDigit b = true) :
      Denotes [.symbol 45,.word digits] (.number (-digitsValue digits))
  | text (value : Bytes) : Denotes [.text value] (.text value)

def DirAdd.head : List Token :=
  [.word (ascii "insert"),.word (ascii "into"),.word (ascii "filetree"),.symbol 40,.word (ascii "userid"),
    .symbol 44,.word (ascii "filepath"),.symbol 44,.word (ascii "dirid"),.symbol 41,.word (ascii "values"),
    .symbol 40]

/-- An `INSERT` of the three values. -/
def DirAdd.Says (userid : Nat) (dirname : Bytes) (dirid : Int) (sql : Bytes) : Prop :=
  ∃ user name parent rest, tokens sql = some (DirAdd.head ++ (user ++ (.symbol 44 :: (name ++
      (.symbol 44 :: (parent ++ (.symbol 41 :: rest))))))) ∧
    Denotes user (.number userid) ∧ Denotes name (.text dirname) ∧ Denotes parent (.number dirid)

/-- A `WHERE` clause for the rows with this user and this directory. -/
def Selects (userid : Nat) (dirid : Int) (sql : Bytes) : Prop :=
  ∃ before user parent rest, tokens sql = some (before ++ (.word (ascii "where") ::
      ([.word (ascii "userid"),.symbol 61] ++ user ++ (.word (ascii "and") ::
        ([.word (ascii "dirid"),.symbol 61] ++ parent ++ rest))))) ∧
    Denotes user (.number userid) ∧ Denotes parent (.number dirid)

example : DirAdd.Says 7 (ascii "a") (-5)
    (ascii "insert into filetree(userid,filepath,dirid) values(7,'a',-5);") :=
  ⟨[.word (ascii "7")],[.text (ascii "a")],[.symbol 45,.word (ascii "5")],[.symbol 59],by decide +kernel,
    .number (by decide) (by decide +kernel),.text _,.negative (by decide) (by decide +kernel)⟩

example : Selects 7 5 (ascii "update filetree set dirid=-2 where userid= 7 and dirid=5;") :=
  ⟨[.word (ascii "update"),.word (ascii "filetree"),.word (ascii "set"),.word (ascii "dirid"),.symbol 61,
      .symbol 45,.word (ascii "2")],[.word (ascii "7")],[.word (ascii "5")],[.symbol 59],by decide +kernel,
    .number (by decide) (by decide +kernel),.number (by decide) (by decide +kernel)⟩

theorem digits_word {n : Nat} : ∀ b ∈ decimal n, isWordByte b = true :=
  fun _ inside => isWordByte_of_isDigit (isDigit_of_mem_decimal inside)

section text
variable {before : Bytes} {ts : List Token}

theorem tokens_added (userid : Nat) (dirname : Bytes) (dirid : UInt64) :
    tokens (DirAdd.sql dirname dirid (decimal userid)) =
      (tokensFrom .between (dirname ++ (decimal dirid.toNat ++ ascii ",);"))).map
        (DirAdd.head ++ [.word (decimal userid),.symbol 44] ++ ·) := by
  have head : run .between (ascii "insert into filetree(userid,filepath,dirid) values(") =
      (DirAdd.head,.between) := by decide +kernel
  have user : run .between (decimal userid ++ ascii ",") = ([.word (decimal userid),.symbol 44],.between) := by
    rw [run_append,run_between_word (decimal_ne_nil userid) digits_word]
    rfl
  have text : DirAdd.sql dirname dirid (decimal userid) =
      ascii "insert into filetree(userid,filepath,dirid) values(" ++ ((decimal userid ++ ascii ",") ++
        (dirname ++ (decimal dirid.toNat ++ ascii ",);"))) := by
    rw [DirAdd.sql,show ascii ",);" = ascii "," ++ ascii ");" from rfl]
    simp only [List.append_assoc]
  rw [tokens,text,tokensFrom_through head,tokensFrom_through user,Option.map_map]
  simp only [Function.comp_def,List.append_assoc]

/-- The number of the user and the conjunction are one word. -/
theorem tokens_joined (head : run .between before = (ts,.between)) (userid dirid : Nat) :
    tokens (before ++ (decimal userid ++ (ascii "and dirid=" ++ decimal dirid ++ ascii ";"))) =
      some (ts ++ [.word (decimal userid ++ ascii "and"),.word (ascii "dirid"),.symbol 61,
        .word (decimal dirid),.symbol 59]) := by
  have one : run .between (decimal userid ++ ascii "and") =
      ([],.word (decimal userid ++ ascii "and")) := by
    apply run_between_word (by simp [decimal_ne_nil])
    intro b inside
    rcases List.mem_append.mp inside with digit | letter
    · exact digits_word b digit
    · exact (show ∀ b ∈ ascii "and", isWordByte b = true by decide +kernel) b letter
  have column : run (.word (decimal userid ++ ascii "and")) (ascii " dirid=") =
      ([.word (decimal userid ++ ascii "and"),.word (ascii "dirid"),.symbol 61],.between) := rfl
  have parent : run .between (decimal dirid) = ([],.word (decimal dirid)) :=
    run_between_word (decimal_ne_nil dirid) digits_word
  have text : before ++ (decimal userid ++ (ascii "and dirid=" ++ decimal dirid ++ ascii ";")) =
      before ++ ((decimal userid ++ ascii "and") ++ (ascii " dirid=" ++ (decimal dirid ++ ascii ";"))) := by
    rw [show ascii "and dirid=" = ascii "and" ++ ascii " dirid=" from rfl]
    simp only [List.append_assoc]
  rw [tokens,text,tokensFrom_through head,tokensFrom_through one,tokensFrom_through column,
    tokensFrom_through parent]
  rfl

theorem not_selects (head : run .between before = (ts,.between)) (plain : .word (ascii "and") ∉ ts)
    (userid : Nat) (dirid : Int) (sent : UInt64) : ¬ Selects userid dirid
      (before ++ (decimal userid ++ (ascii "and dirid=" ++ decimal sent.toNat ++ ascii ";"))) := by
  rintro ⟨front,user,parent,rest,read,_⟩
  have same := Option.some.inj ((tokens_joined head userid sent.toNat).symm.trans read)
  have inside : .word (ascii "and") ∈ ts ++ [.word (decimal userid ++ ascii "and"),.word (ascii "dirid"),
      .symbol 61,.word (decimal sent.toNat),.symbol 59] := by
    rw [same]
    exact List.mem_append_right front (List.mem_cons_of_mem _ (List.mem_append_right _ List.mem_cons_self))
  have longer : ascii "and" ≠ decimal userid ++ ascii "and" := fun same =>
    decimal_ne_nil userid (List.self_eq_append_left.mp same)
  have number : ascii "and" ≠ decimal sent.toNat := fun same =>
    absurd (isDigit_of_mem_decimal (same ▸ List.mem_cons_self : (97 : UInt8) ∈ decimal sent.toNat)) (by decide)
  have other : ascii "and" ≠ ascii "dirid" := by decide
  simp [plain,longer,number,other] at inside

end text

/-- No literal among the bytes of a name holds the whole name. -/
theorem not_said (userid : Nat) (dirname : Bytes) (dirid : Int) (sent : UInt64) :
    ¬ DirAdd.Says userid dirname dirid (DirAdd.sql dirname sent (decimal userid)) := by
  rintro ⟨user,name,parent,rest,read,isUser,isName,_⟩
  rw [tokens_added] at read
  obtain ⟨later,shape,same⟩ := Option.map_eq_some_iff.mp read
  rw [List.append_assoc] at same
  have after := List.append_cancel_left same
  cases isName
  generalize number : Literal.number userid = value at isUser
  cases isUser with
  | text => cases number
  | negative => cases (List.cons.inj after).1
  | number =>
    obtain ⟨_,after⟩ := List.cons.inj after
    obtain ⟨_,rfl⟩ := List.cons.inj after
    have plain : quote ∉ decimal sent.toNat ++ ascii ",);" := by
      intro inside
      rcases List.mem_append.mp inside with digit | closing
      · exact absurd (isDigit_of_mem_decimal digit) (by decide)
      · exact absurd closing (by decide)
    exact absurd (text_shorter plain shape) (lt_irrefl _)

theorem run_update : run .between (ascii "update filetree set dirid=-2 where userid= ") =
    ([.word (ascii "update"),.word (ascii "filetree"),.word (ascii "set"),.word (ascii "dirid"),.symbol 61,
      .symbol 45,.word (ascii "2"),.word (ascii "where"),.word (ascii "userid"),.symbol 61],.between) := by
  decide +kernel

theorem run_select :
    run .between (ascii "select (id,filepath as name,index,filesize) from filetree where userid= ") =
      ([.word (ascii "select"),.symbol 40,.word (ascii "id"),.symbol 44,.word (ascii "filepath"),
        .word (ascii "as"),.word (ascii "name"),.symbol 44,.word (ascii "index"),.symbol 44,
        .word (ascii "filesize"),.symbol 41,.word (ascii "from"),.word (ascii "filetree"),
        .word (ascii "where"),.word (ascii "userid"),.symbol 61],.between) := by
  decide +kernel

/-- Whatever is requested, no statement says it. -/
theorem statements_never_say (request : DirInfo) (userid : Nat) :
    ¬ DirAdd.Says userid request.name request.dirid
        (DirAdd.sql request.name (toUnsigned request.dirid) (decimal userid)) ∧
      ¬ Selects userid request.dirid (DirRm.sql (toUnsigned request.dirid) (decimal userid)) ∧
      ¬ Selects userid request.dirid (DirQuery.sql (toUnsigned request.dirid) (decimal userid)) :=
  ⟨not_said _ _ _ _,not_selects run_update (by decide) _ _ _,not_selects run_select (by decide) _ _ _⟩

/-- `7and` is one word. -/
theorem joined_words : ¬ ∀ (request : DirInfo) (userid : Nat),
    DirAdd.Says userid request.name request.dirid
        (DirAdd.sql request.name (toUnsigned request.dirid) (decimal userid)) ∧
      Selects userid request.dirid (DirRm.sql (toUnsigned request.dirid) (decimal userid)) ∧
      Selects userid request.dirid (DirQuery.sql (toUnsigned request.dirid) (decimal userid)) := by
  intro claim
  have removal := (claim ⟨5,ascii "a",ascii "s1"⟩ 7).2.1
  exact not_selects run_update (by decide) 7 5 (toUnsigned 5) removal

end FilediskServer.DirInfoServer
