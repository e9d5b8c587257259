import FilediskServer.FileTask
import FilediskServer.Library.Traces

/-! The calls that the parts of `process` can come to, whatever these are answered. -/
namespace FilediskServer.FileTask
open Interaction Bytes CusInfo Redis Filetree Calls SocketIO
variable {Q : Call → Prop}

theorem only_ask {c : Call} (is : Q c) : Only Q (ask c) := ⟨is,fun _ => trivial⟩

theorem only_receive (reads : ∀ n, Q (.read n)) (buff : Bytes) (size : Int) :
    Only Q (receive buff size) := by
  apply only_bind
  · refine ⟨fun s => ?_,fun _ => trivial⟩
    dsimp only
    split_ifs
    · refine ⟨reads _,fun r => ?_⟩
      match r with
      | .data _ | .eof | .eintr | .failed => trivial
    · trivial
  · exact fun _ => trivial

theorem only_send (writes : ∀ source n, Q (.write source n)) (msg : Source) (size : Int) :
    Only Q (send msg size) := by
  apply only_bind
  · refine ⟨fun s => ?_,fun _ => trivial⟩
    dsimp only
    split_ifs
    · refine ⟨writes _ _,fun r => ?_⟩
      match r with
      | .eintr | .failed => trivial
      | .count n =>
        simp only [Prog.ret_bind]
        split_ifs <;> trivial
    · trivial
  · exact fun _ => trivial

theorem only_redis {c : Command} (is : Q (.redis c)) : Only Q (redis c) := by
  apply only_bind (only_ask is)
  intro r
  match r with
  | .ok _ | .error _ => trivial

theorem only_validate {uuid : Bytes} (is : Q (.redis (.hgetall uuid))) : Only Q (validate uuid) := by
  apply only_bind (only_redis is)
  intro fields
  split_ifs
  · split <;> trivial
  · trivial

theorem only_isfileexits {path : Bytes} {userid : UInt64}
    (cached : Q (.redis (.sismember (decimal userid.toNat) path)))
    (counted : Q (.query (.countPath path))) : Only Q (isfileexits path userid) := by
  apply only_bind (only_redis cached)
  intro res
  split_ifs
  · trivial
  · apply only_bind (only_ask counted)
    intro r
    match r with
    | none => trivial
    | some n =>
      dsimp only
      split_ifs <;> trivial

theorem only_receiveChecked {md5 : Bytes → Digest} {fh : Fileheader} (reads : ∀ n, Q (.read n))
    (writes : ∀ source n, Q (.write source n)) (b : Bytes) : Only Q (receiveChecked md5 fh b) := by
  refine ⟨fun b => ?_,fun _ => trivial⟩
  apply only_bind (only_receive reads b _)
  intro b
  split_ifs
  · trivial
  · apply only_bind (only_send writes _ _)
    exact fun _ => trivial

theorem only_getfilelist {uid dirid : UInt64} {filename : Bytes}
    (selects : Q (.query (.selectFiles uid dirid filename))) :
    Only Q (getfilelist uid dirid filename) := by
  apply only_bind (only_ask selects)
  intro r
  match r with
  | none => trivial
  | some rows =>
    dsimp only
    split <;> trivial

theorem only_sendFiles {fh : Fileheader} {filename : Bytes} (opens : Q (.openFile filename))
    (maps : ∀ fd n, Q (.mmap fd n)) (raw : ∀ n, Q (.uninit n)) (writes : ∀ source n, Q (.write source n))
    (unmaps : ∀ m, Q (.munmap m)) (closes : ∀ fd, Q (.close fd)) (list : List (Int × Bytes × UInt64)) :
    Only Q (sendFiles fh filename list) := by
  induction list with
  | nil => trivial
  | cons item rest ih =>
    obtain ⟨index,filepath,filesize⟩ := item
    apply only_bind (only_ask opens)
    intro sfd
    match sfd with
    | none => trivial
    | some sfd =>
      apply only_bind (only_ask (maps _ _))
      intro data
      apply only_bind (only_ask (raw _))
      intro raw
      apply only_bind (only_send writes _ _)
      intro _
      apply only_bind (only_send writes _ _)
      intro _
      apply only_bind (only_ask (unmaps _))
      intro _
      apply only_bind (only_ask (closes _))
      exact fun _ => ih

end FilediskServer.FileTask
