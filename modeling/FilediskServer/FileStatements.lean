import FilediskServer.Library.SqlText
import FilediskServer.Calls

/-! The statements of the TCP server as MySQL reads them. The name of the file stands between
quotes as the client sent it. -/
namespace FilediskServer.FileStatements
open Bytes CusInfo Filetree Disk Calls SqlText

/-- A number as `std::to_string` writes it. -/
def numeral (x : Int) : List Token :=
  if x < 0 then [.symbol 45,.word (decimal x.natAbs)] else [.word (decimal x.natAbs)]

def selectHead : List Token :=
  [.word (ascii "select"),.word (ascii "index"),.symbol 44,.word (ascii "hashfilepath"),.symbol 44,
    .word (ascii "filesize"),.word (ascii "from"),.word (ascii "filetree"),.word (ascii "where"),
    .word (ascii "userid"),.symbol 61]

/-- The statement of `getfilelist` up to `filepath=`. -/
def selectBefore (uid dirid : UInt64) : List Token :=
  selectHead ++ .word (decimal uid.toNat) :: .word (ascii "and") :: .word (ascii "dirid") :: .symbol 61 ::
    .word (decimal dirid.toNat) :: .word (ascii "and") :: .word (ascii "filepath") :: .symbol 61 :: []

def selectFiles (uid dirid : UInt64) (filename : Bytes) : List Token :=
  selectBefore uid dirid ++ .text filename :: .symbol 59 :: []

def insertHead : List Token :=
  [.word (ascii "insert"),.word (ascii "into"),.word (ascii "filetree"),.symbol 40,.word (ascii "userid"),
    .symbol 44,.word (ascii "filepath"),.symbol 44,.word (ascii "index"),.symbol 44,
    .word (ascii "hashfilepath"),.symbol 44,.word (ascii "dirid"),.symbol 44,.word (ascii "filesize"),
    .symbol 41,.word (ascii "values"),.symbol 40]

/-- What follows the name in the row that `process` inserts. -/
def insertAfter (index : Int) (hashfilepath : Bytes) (dirid filesize : Int) : List Token :=
  numeral index ++ .symbol 44 :: .text hashfilepath :: .symbol 44 ::
    (numeral dirid ++ .symbol 44 :: (numeral filesize ++ .symbol 41 :: .symbol 59 :: []))

def insert (userid : UInt64) (filepath : Bytes) (index : Int) (hashfilepath : Bytes)
    (dirid filesize : Int) : List Token :=
  insertHead ++ .word (decimal userid.toNat) :: .symbol 44 :: .text filepath :: .symbol 44 ::
    insertAfter index hashfilepath dirid filesize

section pieces
variable {ts : List Token} {m : Mode} {sep : Bytes}

theorem tokensFrom_literal {b : Bytes} (plain : carried b = true)
    (ends : run (.literal b) sep = (.text b :: ts,m)) (t : Bytes) :
    tokensFrom (.literal []) (b ++ (sep ++ t)) = (tokensFrom m t).map (.text b :: ts ++ ·) := by
  rw [tokensFrom_through (run_carried plain []),List.nil_append,tokensFrom_through ends,Option.map_map]
  rfl

theorem tokensFrom_decimal (n : Nat) (ends : run (.word (decimal n)) sep = (.word (decimal n) :: ts,m))
    (t : Bytes) : tokensFrom .between (decimal n ++ (sep ++ t)) =
      (tokensFrom m t).map (.word (decimal n) :: ts ++ ·) := by
  have digits : ∀ b ∈ decimal n, isWordByte b = true :=
    fun _ inside => isWordByte_of_isDigit (isDigit_of_mem_decimal inside)
  rw [tokensFrom_through (run_between_word (decimal_ne_nil n) digits),tokensFrom_through ends,
    Option.map_map]
  rfl

theorem tokensFrom_numeral (x : Int)
    (ends : ∀ digits, run (.word digits) sep = (.word digits :: ts,m)) (t : Bytes) :
    tokensFrom .between (decimalInt x ++ (sep ++ t)) = (tokensFrom m t).map (numeral x ++ ts ++ ·) := by
  unfold decimalInt numeral
  split_ifs with negative
  · have minus : run .between (ascii "-") = ([.symbol 45],.between) := rfl
    rw [List.append_assoc,tokensFrom_through minus,tokensFrom_decimal _ (ends _),Option.map_map]
    rfl
  · exact tokensFrom_decimal _ (ends _) t

end pieces

theorem plain_of_class {among : UInt8 → Bool} {b : UInt8} (is : among b = true)
    (quoteNot : among quote = false) (backslashNot : among backslash = false) :
    b ≠ quote ∧ b ≠ backslash := by
  constructor
  · rintro rfl
    exact absurd (quoteNot.symm.trans is) Bool.false_ne_true
  · rintro rfl
    exact absurd (backslashNot.symm.trans is) Bool.false_ne_true

theorem plain_decimalInt {x : Int} {b : UInt8} (inside : b ∈ decimalInt x) : b ≠ quote ∧ b ≠ backslash := by
  have digits {n : Nat} (digit : b ∈ decimal n) : b ≠ quote ∧ b ≠ backslash :=
    plain_of_class (isDigit_of_mem_decimal digit) rfl rfl
  unfold decimalInt at inside
  split_ifs at inside
  · rcases List.mem_append.mp inside with minus | digit
    · obtain rfl : b = 45 := List.mem_singleton.mp minus
      decide
    · exact digits digit
  · exact digits inside

theorem not_mem_hashPath {q : UInt8} (fixed : q ∉ ascii "/home/filedisk/") (digit : isHexDigit q = false)
    (d : Digest) : q ∉ hashPath d := by
  intro inside
  rcases List.mem_append.mp inside with first | last
  · exact fixed first
  · have is := isHexDigit_of_mem_hex last
    rw [digit] at is
    cases is

theorem carried_hashPath (d : Digest) : carried (hashPath d) = true := by
  apply carried_of_free
  · exact not_mem_hashPath (by decide +kernel) rfl d
  · exact not_mem_hashPath (by decide +kernel) rfl d

theorem tokens_select (uid dirid : UInt64) (filename : Bytes) :
    tokens (Statement.text (.selectFiles uid dirid filename)) =
      (tokensFrom (.literal []) (filename ++ ascii "';")).map (selectBefore uid dirid ++ ·) := by
  have head : run .between (ascii "select index,hashfilepath,filesize from filetree where userid=") =
      (selectHead,.between) := by decide +kernel
  have first (digits : Bytes) : run (.word digits) (ascii " and dirid=") =
      ([.word digits,.word (ascii "and"),.word (ascii "dirid"),.symbol 61],.between) := rfl
  have second (digits : Bytes) : run (.word digits) (ascii " and filepath= '") =
      ([.word digits,.word (ascii "and"),.word (ascii "filepath"),.symbol 61],.literal []) := rfl
  unfold Statement.text tokens
  simp only [List.append_assoc]
  rw [tokensFrom_through head,tokensFrom_decimal _ (first _),tokensFrom_decimal _ (second _),
    Option.map_map,Option.map_map]
  rfl

theorem select_text_iff (uid dirid : UInt64) (filename : Bytes) :
    tokens (Statement.text (.selectFiles uid dirid filename)) = some (selectFiles uid dirid filename) ↔
      carried filename = true := by
  have closed : run (.literal filename) (ascii "';") = ([.text filename,.symbol 59],.between) := rfl
  rw [tokens_select,selectFiles,map_append_eq_some]
  constructor
  · intro read
    obtain ⟨after,back⟩ := run_of_tokensFrom read
    refine carried_of_text (t := []) (c := 59) (by decide) (by decide) (fun held v after closed => ?_) back
    cases closed
  · intro plain
    have whole := tokensFrom_literal plain closed []
    rwa [List.append_nil] at whole

theorem tokens_after (index : Int) (d : Digest) (dirid filesize : Int) :
    tokensFrom .between (decimalInt index ++ (ascii ",'" ++ (hashPath d ++ (ascii "'," ++
      (decimalInt dirid ++ (ascii "," ++ (decimalInt filesize ++ ascii ");"))))))) =
        some (insertAfter index (hashPath d) dirid filesize) := by
  have opens (digits : Bytes) : run (.word digits) (ascii ",'") =
      ([.word digits,.symbol 44],.literal []) := rfl
  have path : run (.literal (hashPath d)) (ascii "',") = ([.text (hashPath d),.symbol 44],.between) := rfl
  have comma (digits : Bytes) : run (.word digits) (ascii ",") = ([.word digits,.symbol 44],.between) := rfl
  have last (digits : Bytes) : run (.word digits) (ascii ");") =
      ([.word digits,.symbol 41,.symbol 59],.between) := rfl
  have ended := tokensFrom_numeral filesize last []
  rw [List.append_nil] at ended
  rw [tokensFrom_numeral index opens,tokensFrom_literal (carried_hashPath d) path,
    tokensFrom_numeral dirid comma,ended]
  simp [insertAfter,tokensFrom,run,finish]

theorem tokens_insert (userid : UInt64) (filepath : Bytes) (index : Int) (hashfilepath : Bytes)
    (dirid filesize : Int) :
    tokens (Statement.text (.insert userid filepath index hashfilepath dirid filesize)) =
      (tokensFrom (.literal []) (filepath ++ (ascii "'," ++ (decimalInt index ++ (ascii ",'" ++
        (hashfilepath ++ (ascii "'," ++ (decimalInt dirid ++ (ascii "," ++ (decimalInt filesize ++
          ascii ");")))))))))).map
        (insertHead ++ .word (decimal userid.toNat) :: .symbol 44 :: [] ++ ·) := by
  have head : run .between
      (ascii "insert into filetree (userid,filepath,index,hashfilepath,dirid,filesize) values ( ") =
        (insertHead,.between) := by decide +kernel
  have comma (digits : Bytes) : run (.word digits) (ascii ",") = ([.word digits,.symbol 44],.between) := rfl
  have opens : run .between (ascii "'") = ([],.literal []) := rfl
  unfold Statement.text tokens
  simp only [List.append_assoc]
  rw [tokensFrom_through head,tokensFrom_decimal _ (comma _),tokensFrom_through opens,Option.map_map,
    Option.map_map]
  rfl

/-- Behind the name comes a literal, so what a quote in the name opens ends there. -/
theorem closes_after (index : Int) (d : Digest) (more read v : Bytes) {after : List Token}
    (closed : (run (.literal read) (decimalInt index ++ (ascii ",'" ++ (hashPath d ++ more)))).1 =
      .text v :: after) : v = read ++ (decimalInt index ++ [44]) := by
  have plain : ∀ b ∈ decimalInt index ++ [44], b ≠ quote ∧ b ≠ backslash := by
    intro b inside
    rcases List.mem_append.mp inside with numeral | comma
    · exact plain_decimalInt numeral
    · obtain rfl := List.mem_singleton.mp comma
      decide
  have carries : carried (decimalInt index ++ [44]) = true :=
    carried_of_free (fun inside => (plain _ inside).1 rfl) fun inside => (plain _ inside).2 rfl
  have text : decimalInt index ++ (ascii ",'" ++ (hashPath d ++ more)) =
      (decimalInt index ++ [44]) ++ (quote :: (47 :: (ascii "home/filedisk/" ++ hex d.bytes ++ more))) := by
    rw [List.append_assoc (decimalInt index) [44]]
    rfl
  rw [text,run_append,run_carried carries read,List.nil_append,run_quiet (next_quote _)] at closed
  exact (Token.text.inj (List.cons.inj closed).1).symm

theorem insert_text_iff (userid : UInt64) (filepath : Bytes) (index : Int) (d : Digest)
    (dirid filesize : Int) :
    tokens (Statement.text (.insert userid filepath index (hashPath d) dirid filesize)) =
        some (insert userid filepath index (hashPath d) dirid filesize) ↔ carried filepath = true := by
  have closed : run (.literal filepath) (ascii "',") = ([.text filepath,.symbol 44],.between) := rfl
  have whole : insert userid filepath index (hashPath d) dirid filesize =
      (insertHead ++ .word (decimal userid.toNat) :: .symbol 44 :: []) ++
        .text filepath :: .symbol 44 :: insertAfter index (hashPath d) dirid filesize := by
    simp [insert]
  rw [tokens_insert,whole,map_append_eq_some]
  constructor
  · intro read
    obtain ⟨after,back⟩ := run_of_tokensFrom read
    exact carried_of_text_past (c := 44) (x := 44) (by decide) (by decide)
      (show _ = (44 :: decimalInt index) ++ [44] from rfl) (by decide) (by decide)
      (fun read v after => closes_after index d _ read v) back
  · intro plain
    rw [tokensFrom_literal plain closed,tokens_after]
    rfl

/-- A user is given rows of her own and adds rows of her own, as far as MySQL does what the
statements are meant to say. -/
def Isolated (userid dirid : UInt64) (filename : Bytes) : Prop :=
  (∀ env task w rows w', Sys env task w (.query (.selectFiles userid dirid filename)) (some rows) w' →
    ∀ c ∈ rows, ∃ row ∈ w.store.table, row.userid = userid ∧ row.cells = c) ∧
  ∀ index hashfilepath parent filesize env task w done w',
    Sys env task w (.query (.insert userid filename index hashfilepath parent filesize)) done w' →
    ∀ row ∈ w'.store.table, row ∈ w.store.table ∨ row.userid = userid ∧ row.filepath = filename

theorem isolated (userid dirid : UInt64) (filename : Bytes) : Isolated userid dirid filename := by
  constructor
  · rintro env task w rows w' ⟨rfl,⟨l,same,order⟩ | ⟨none,-⟩⟩ c member
    · cases same
      obtain ⟨row,chosen,rfl⟩ := List.mem_map.mp (order.mem_iff.mp member)
      obtain ⟨inside,fits⟩ := List.mem_filter.mp chosen
      simp only [Row.matchesFile,Bool.and_eq_true,beq_iff_eq] at fits
      exact ⟨row,inside,fits.1.1,rfl⟩
    · cases none
  · rintro index hashfilepath parent filesize env task w done w' (⟨-,rfl⟩ | ⟨-,-,rfl⟩) row member
    · rcases List.mem_append.mp member with old | new
      · exact .inl old
      · obtain rfl := List.mem_singleton.mp new
        exact .inr ⟨rfl,rfl⟩
    · exact .inl member

/-- Both statements say what they were meant to, for the user they were meant for, exactly
when a literal carries the name of the file. -/
theorem file_statements_iff (userid : UInt64) (fh : Fileheader) (name : Bytes) :
    (tokens (Statement.text (.selectFiles userid (UInt64.ofInt fh.dirid) (cstr name))) =
        some (selectFiles userid (UInt64.ofInt fh.dirid) (cstr name)) ∧
      tokens (Statement.text (.insert userid (cstr name) fh.index (hashPath fh.md5) fh.dirid fh.filelen)) =
        some (insert userid (cstr name) fh.index (hashPath fh.md5) fh.dirid fh.filelen) ∧
      Isolated userid (UInt64.ofInt fh.dirid) (cstr name)) ↔ carried (cstr name) = true := by
  rw [select_text_iff,insert_text_iff]
  exact ⟨And.left,fun plain => ⟨plain,plain,isolated _ _ _⟩⟩

/-- The quote of a name ends its literal, and what follows it is read as a condition. -/
theorem filename_with_quote : ¬ ∀ (userid : UInt64) (fh : Fileheader) (name : Bytes),
    tokens (Statement.text (.selectFiles userid (UInt64.ofInt fh.dirid) (cstr name))) =
        some (selectFiles userid (UInt64.ofInt fh.dirid) (cstr name)) ∧
      tokens (Statement.text (.insert userid (cstr name) fh.index (hashPath fh.md5) fh.dirid fh.filelen)) =
        some (insert userid (cstr name) fh.index (hashPath fh.md5) fh.dirid fh.filelen) ∧
      Isolated userid (UInt64.ofInt fh.dirid) (cstr name) := by
  intro claim
  have read := (claim 1 ⟨0,fun _ => 0,0,false,0⟩ (ascii "x' or userid<>'1")).1
  exact absurd ((select_text_iff _ _ _).mp read) (by decide +kernel)

end FilediskServer.FileStatements
