import FilediskServer.Library.SqlLiteral
import FilediskServer.FileStatements

/-! The path under which `savefile` keeps content: built byte by byte from its digest, and put
between quotes of either kind. -/
namespace FilediskServer.ContentPath
open Bytes CusInfo Filetree Disk SqlText FileStatements

/-- The shortest hexadecimal numeral of a number, in lower case. -/
def hexNumeral (n : Nat) : Bytes := (Nat.toDigits 16 n).map fun c => UInt8.ofNat c.toNat

/-- `sprintf(tmp,"%02x",n)` into `char tmp[3] = {0}`. -/
def sprintf02x (n : Nat) : Bytes :=
  overlay (zeros 3) 0 (List.replicate (2 - (hexNumeral n).length) 48 ++ hexNumeral n ++ [0])

/-- The loop of `savefile` that appends `tmp` for each byte of `md5`. -/
def buildFilename (md5 : Digest) : Bytes :=
  (List.finRange 16).foldl (fun filename i => filename ++ cstr (sprintf02x (md5 i).toNat))
    (ascii "/home/filedisk/")

/-- A byte takes two digits, whatever its value. -/
theorem cstr_sprintf (b : UInt8) : cstr (sprintf02x b.toNat) = hexByte b := by
  have each : ∀ n : Fin 256, cstr (sprintf02x n) = hexByte (UInt8.ofNat n) := by decide +kernel
  have same := each ⟨b.toNat,b.toNat_lt⟩
  rwa [UInt8.ofNat_toNat] at same

/-- After any number of rounds the path holds the digits of the bytes appended so far. -/
theorem append_loop (md5 : Digest) (rounds : List (Fin 16)) (filename : Bytes) :
    rounds.foldl (fun filename i => filename ++ cstr (sprintf02x (md5 i).toNat)) filename =
      filename ++ hex (rounds.map md5) := by
  induction rounds generalizing filename with
  | nil => simp [hex]
  | cons i rounds ih =>
    rw [List.foldl_cons,ih,cstr_sprintf]
    simp [hex]

theorem buildFilename_eq (md5 : Digest) : buildFilename md5 = hashPath md5 := by
  unfold buildFilename hashPath Digest.bytes
  rw [append_loop,List.ofFn_eq_map]

theorem path_read {q : UInt8} {after : Bytes} (fixed : q ∉ ascii "/home/filedisk/")
    (digit : isHexDigit q = false) (d : Digest) (ends : after.head? ≠ some q) :
    readLiteral q (hashPath d ++ q :: after) = some (hashPath d,after) := by
  apply readLiteral_plain
  · exact not_mem_hashPath fixed digit d
  · exact not_mem_hashPath (by decide +kernel) rfl d
  · exact ends

/-- In single quotes, the tokens of a whole statement are read so too. -/
theorem path_scanned {after : Bytes} (d : Digest) (ends : after.head? ≠ some quote) :
    run (.literal []) (hashPath d ++ quote :: after) = run (.quoted (hashPath d)) after :=
  run_readLiteral (path_read (by decide +kernel) rfl d ends) []

/-- The text holds the path between two of these quotes, with `after` behind them, and the literal
that the first one opens is read as the path. -/
def Quoted (q : UInt8) (path after text : Bytes) : Prop :=
  (∃ before, text = before ++ q :: (path ++ q :: after)) ∧
  readLiteral q (path ++ q :: after) = some (path,after)

theorem insert_quoted (userid : UInt64) (filepath : Bytes) (index dirid filesize : Int) (d : Digest) :
    Quoted quote (hashPath d) (ascii "," ++ decimalInt dirid ++ ascii "," ++ decimalInt filesize ++ ascii ");")
      (Statement.text (.insert userid filepath index (hashPath d) dirid filesize)) := by
  constructor
  · refine ⟨ascii "insert into filetree (userid,filepath,index,hashfilepath,dirid,filesize) values ( " ++
      decimal userid.toNat ++ ascii "," ++ ascii "'" ++ filepath ++ ascii "'," ++ decimalInt index ++
      ascii ",",?_⟩
    have opens : ascii ",'" = ascii "," ++ [quote] := rfl
    have ends : ascii "'," = quote :: ascii "," := rfl
    simp only [Statement.text,List.append_assoc,opens,ends,List.cons_append,List.nil_append]
  · exact path_read (by decide +kernel) rfl d (by rintro ⟨⟩)

theorem countPath_quoted (d : Digest) :
    Quoted doubleQuote (hashPath d) (ascii ";") (Statement.text (.countPath (hashPath d))) := by
  constructor
  · refine ⟨ascii "select count(*) from filetree where hashfilepath= ",?_⟩
    have opens : ascii "select count(*) from filetree where hashfilepath= \"" =
        ascii "select count(*) from filetree where hashfilepath= " ++ [doubleQuote] := by decide +kernel
    have ends : ascii "\";" = doubleQuote :: ascii ";" := rfl
    simp only [Statement.text,List.append_assoc,opens,ends,List.cons_append,List.nil_append]
  · exact path_read (by decide +kernel) rfl d (by rintro ⟨⟩)

theorem content_path :
    (∀ a b, buildFilename a = buildFilename b ↔ a = b) ∧
    ∀ d, (∃ digits : Bytes, buildFilename d = ascii "/home/filedisk/" ++ digits ∧ digits.length = 32 ∧
        (∀ x ∈ digits, isHexDigit x = true) ∧ slash ∉ digits) ∧
      quote ∉ buildFilename d ∧ doubleQuote ∉ buildFilename d ∧ backslash ∉ buildFilename d ∧
      (∀ userid filepath index dirid filesize, Quoted quote (buildFilename d)
        (ascii "," ++ decimalInt dirid ++ ascii "," ++ decimalInt filesize ++ ascii ");")
        (Statement.text (.insert userid filepath index (buildFilename d) dirid filesize))) ∧
      Quoted doubleQuote (buildFilename d) (ascii ";") (Statement.text (.countPath (buildFilename d))) := by
  constructor
  · intro a b
    rw [buildFilename_eq,buildFilename_eq,hashPath_injective.eq_iff]
  · intro d
    rw [buildFilename_eq]
    have size : (hex d.bytes).length = 32 := by simp [Digest.bytes]
    refine ⟨⟨hex d.bytes,rfl,size,fun x inside => isHexDigit_of_mem_hex inside,slash_not_mem_hex _⟩,
      ?_,?_,?_,fun userid filepath index dirid filesize => ?_,countPath_quoted d⟩
    · exact not_mem_hashPath (by decide +kernel) rfl d
    · exact not_mem_hashPath (by decide +kernel) rfl d
    · exact not_mem_hashPath (by decide +kernel) rfl d
    · exact insert_quoted userid filepath index dirid filesize d

end FilediskServer.ContentPath
