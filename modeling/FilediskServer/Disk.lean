import FilediskServer.CusInfo
import Mathlib.Logic.Function.Basic

/-! The file system under the TCP server: files by their resolved path, each the list of
blocks that `write` appended to it, with the task that wrote the block. -/
namespace FilediskServer.Disk
open Bytes CusInfo

/-- A resolved path: the names from the root down. -/
abbrev File := List Bytes

def slash : UInt8 := 47

def enter (at' : File) (name : Bytes) : File :=
  if name = [] ∨ name = ascii "." then at' else if name = ascii ".." then at'.dropLast else at' ++ [name]

def walk (at' : File) (name : Bytes) : Bytes → File
  | [] => enter at' name
  | b :: rest => if b = slash then walk (enter at' name) [] rest else walk at' (name ++ [b]) rest

/-- The file a path names for a process whose working directory is `cwd`. -/
def resolve (cwd : File) (path : Bytes) : File :=
  walk (if path.head? = some slash then [] else cwd) [] path

def hashPath (d : Digest) : Bytes := ascii "/home/filedisk/" ++ hex d.bytes

def hashFile (d : Digest) : File := [ascii "home",ascii "filedisk",hex d.bytes]

theorem walk_name {rest : Bytes} (plain : slash ∉ rest) (at' : File) (name : Bytes) :
    walk at' name rest = enter at' (name ++ rest) := by
  induction rest generalizing name with
  | nil => simp [walk]
  | cons b rest ih =>
    have other : b ≠ slash := fun same => plain (by simp [same])
    unfold walk
    rw [if_neg other,ih (fun inside => plain (by simp [inside])),List.append_assoc]
    rfl

theorem slash_not_mem_hex (b : Bytes) : slash ∉ hex b := fun inside =>
  absurd (isHexDigit_of_mem_hex inside) (by decide)

theorem resolve_hashPath (cwd : File) (d : Digest) : resolve cwd (hashPath d) = hashFile d := by
  have size : (hex d.bytes).length = 32 := by simp [Digest.bytes]
  have first : resolve cwd (hashPath d) = walk [ascii "home",ascii "filedisk"] [] (hex d.bytes) := rfl
  rw [first,walk_name (slash_not_mem_hex _),List.nil_append,enter,if_neg,if_neg]
  · rfl
  · intro same
    rw [same] at size
    exact absurd size (by decide)
  · rintro (same | same) <;> (rw [same] at size; exact absurd size (by decide))

theorem hashFile_injective : Function.Injective hashFile := fun a b same => by
  have digits : hex a.bytes = hex b.bytes := by simpa [hashFile] using same
  exact List.ofFn_injective (hex_injective digits)

theorem hashPath_injective : Function.Injective hashPath := fun a b same => by
  have digits : hex a.bytes = hex b.bytes := List.append_cancel_left same
  exact List.ofFn_injective (hex_injective digits)

/-- Bytes appended by one `write`, and the task that wrote them. -/
structure Block where
  writer : Nat
  data : Bytes
  deriving DecidableEq

abbrev Blocks := List Block

def Blocks.content (b : Blocks) : Bytes := b.flatMap Block.data

end FilediskServer.Disk

namespace FilediskServer
open Disk

abbrev Files := File → Option Blocks

namespace Files

def create (d : Files) (f : File) : Files := Function.update d f (some ((d f).getD []))

/-- `write` with `O_APPEND`; nothing for a file that is not there. -/
def append (d : Files) (f : File) (b : Block) : Files := Function.update d f ((d f).map (· ++ [b]))

def content (d : Files) (f : File) : Bytes := Blocks.content ((d f).getD [])

def pageSize : Nat := 4096

def pageRound (n : Nat) : Nat := (n + (pageSize - 1)) / pageSize * pageSize

/-- What a mapping of the file shows: its bytes and the zeros that fill the last page. -/
def pages (d : Files) (f : File) : Bytes :=
  d.content f ++ Bytes.zeros (pageRound (d.content f).length - (d.content f).length)

@[simp] theorem create_self (d : Files) (f : File) : d.create f f = some ((d f).getD []) := by
  simp [create]

@[simp] theorem create_other (d : Files) {f g : File} (other : g ≠ f) : d.create f g = d g := by
  simp [create,other]

theorem create_present (d : Files) {f : File} (present : d f ≠ none) : d.create f = d := by
  obtain ⟨blocks,held⟩ := Option.ne_none_iff_exists'.mp present
  have same : some ((d f).getD []) = d f := by rw [held]; rfl
  unfold create
  rw [same,Function.update_eq_self]

theorem create_create (d : Files) (f : File) : (d.create f).create f = d.create f :=
  create_present _ (by simp)

@[simp] theorem append_self (d : Files) (f : File) (b : Block) :
    d.append f b f = (d f).map (· ++ [b]) := by
  simp [append]

@[simp] theorem append_other (d : Files) {f g : File} (b : Block) (other : g ≠ f) :
    d.append f b g = d g := by
  simp [append,other]

theorem append_create (d : Files) {f : File} (absent : d f = none) (b : Block) :
    (d.create f).append f b = Function.update d f (some [b]) := by
  unfold append create
  rw [Function.update_self,Function.update_idem,absent]
  rfl

@[simp] theorem content_create (d : Files) (f g : File) : (d.create f).content g = d.content g := by
  by_cases same : g = f
  · subst same; simp [content]
  · simp [content,same]

@[simp] theorem pages_create (d : Files) (f g : File) : (d.create f).pages g = d.pages g := by
  simp [pages]

theorem le_pageRound (n : Nat) : n ≤ pageRound n := by
  simp only [pageRound,pageSize]
  omega

end Files

end FilediskServer
