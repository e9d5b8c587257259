import FilediskServer.RowOrigins
import FilediskServer.Library.Rely
import FilediskServer.Library.Parties
import FilediskServer.Library.ContentStore

/-! What any number of workers make of the disk and the table, whatever the clients send: seen from
outside they run a store of contents that go by their MD5. -/
namespace FilediskServer.FileServer
open Interaction Bytes CusInfo Redis Filetree Disk Calls SocketIO FileTask

/-- The paths that `savefile` builds, and those in the rows. -/
def naming (md5 : Bytes → Digest) : ContentStore.Naming Bytes Bytes Row :=
  ⟨fun b => hashPath (md5 b),Row.hashfilepath⟩

/-- The row is that of a file. A directory has no path of a content. -/
def OfFile (row : Row) : Prop := row.hashfilepath ≠ []

instance (row : Row) : Decidable (OfFile row) := inferInstanceAs (Decidable (row.hashfilepath ≠ []))

/-- The content is in the file of its digest as one block. -/
def Holds (md5 : Bytes → Digest) (s : Store) (b : Bytes) : Prop :=
  ∃ blocks, s.files (hashFile (md5 b)) = some blocks ∧ ∃ x ∈ blocks, x.data = b

def contentStore (md5 : Bytes → Digest) (s : Store) : ContentStore.Store Bytes Row :=
  ⟨{b | Holds md5 s b},s.table.filter (OfFile ·)⟩

/-- Some content is stored under the path. -/
def Known (md5 : Bytes → Digest) (s : Store) (path : Bytes) : Prop :=
  ((naming md5).get (contentStore md5 s) path).Nonempty

/-- Redis may lose what it was told but makes nothing up, as long as its state is one of `K`. -/
def Truthful (redis : Semantics) (K : Redis.State → Prop) : Prop :=
  ∀ s c r s', K s → redis s c r s' → forgetful s c r s' ∧ K s'

structure Addressed (md5 : Bytes → Digest) (K : Redis.State → Prop) (s : Store) : Prop where
  redis : K s.redis
  digests : ∀ d blocks, s.files (hashFile d) = some blocks → ∀ b ∈ blocks, md5 b.data = d
  rows : ∀ row ∈ s.table, OfFile row → Known md5 s row.hashfilepath
  cached : ∀ x ∈ s.redis.added, Known md5 s x.2

/-- Files and table are appended to, and so is what was added to the caches. -/
structure Grows (s s' : Store) : Prop where
  files : ∀ f blocks, s.files f = some blocks → ∃ blocks', s'.files f = some blocks' ∧ blocks <+: blocks'
  table : s.table <+: s'.table
  added : ∀ x ∈ s.redis.added, x ∈ s'.redis.added

instance : IsPreorder Store Grows where
  refl _ := ⟨fun _ blocks held => ⟨blocks,held,List.prefix_refl _⟩,List.prefix_refl _,fun _ => id⟩
  trans _ _ _ first second := by
    refine ⟨fun _ blocks held => ?_,first.table.trans second.table,fun x old => second.added x (first.added x old)⟩
    obtain ⟨blocks',held,more⟩ := first.files _ blocks held
    obtain ⟨blocks'',held,most⟩ := second.files _ blocks' held
    exact ⟨blocks'',held,more.trans most⟩

section store
variable {md5 : Bytes → Digest} {s s' : Store} {path : Bytes}

theorem grows_files (files : s'.files = s.files) (table : s.table <+: s'.table)
    (added : ∀ x ∈ s.redis.added, x ∈ s'.redis.added) : Grows s s' :=
  ⟨fun _ blocks held => ⟨blocks,files ▸ held,List.prefix_refl _⟩,table,added⟩

theorem holds_grows (grows : Grows s s') {b : Bytes} (holds : Holds md5 s b) : Holds md5 s' b := by
  obtain ⟨blocks,held,x,inside,same⟩ := holds
  obtain ⟨blocks',held',more⟩ := grows.files _ _ held
  exact ⟨blocks',held',x,more.subset inside,same⟩

theorem known_grows (grows : Grows s s') (known : Known md5 s path) : Known md5 s' path := by
  obtain ⟨b,holds,named⟩ := known
  exact ⟨b,holds_grows grows holds,named⟩

theorem hashPath_ne_nil (d : Digest) : hashPath d ≠ [] := by simp [hashPath,ascii]

theorem ne_nil_of_known (known : Known md5 s path) : path ≠ [] := by
  obtain ⟨b,_,rfl⟩ := known
  exact hashPath_ne_nil _

theorem grows_create (s : Store) (f : File) : Grows s {s with files := s.files.create f} := by
  refine ⟨fun g blocks held => ?_,List.prefix_refl _,fun _ => id⟩
  by_cases same : g = f
  · subst same
    exact ⟨blocks,by simp [held],List.prefix_refl _⟩
  · exact ⟨blocks,by simpa [same] using held,List.prefix_refl _⟩

theorem grows_append (s : Store) (f : File) (b : Block) : Grows s {s with files := s.files.append f b} := by
  refine ⟨fun g blocks held => ?_,List.prefix_refl _,fun _ => id⟩
  by_cases same : g = f
  · subst same
    exact ⟨blocks ++ [b],by simp [held],List.prefix_append _ _⟩
  · exact ⟨blocks,by simpa [same] using held,List.prefix_refl _⟩

/-- No call takes anything away, whatever fails. -/
theorem sys_grows {env : Env} {K : Redis.State → Prop} (truthful : Truthful env.redis K) {me : Nat}
    {w w' : World} {c : Call} {r : c.Res} (state : K w.store.redis) (answered : Sys env me w c r w') :
    Grows w.store w'.store := by
  have still {w' : World} (same : w'.store = w.store) : Grows w.store w'.store := same ▸ refl_of Grows _
  cases c with
  | read | write | mmap | munmap | close | alloc | array | uninit | beyond =>
    apply still
    cases sys_changes answered <;> rfl
  | redis c =>
    obtain ⟨redis,asked,rfl⟩ := answered
    refine grows_files rfl (List.prefix_refl _) fun x old => ?_
    have added := (truthful _ c r redis state asked).1.1
    rw [show _ = redis.added from rfl,added]
    exact mem_record old c
  | query statement =>
    cases statement with
    | insert =>
      obtain ⟨_,rfl⟩ | ⟨_,_,rfl⟩ := answered
      · exact grows_files rfl (List.prefix_append _ _) fun _ => id
      · exact still rfl
    | selectFiles | countPath => obtain ⟨rfl,_⟩ := answered; exact still rfl
  | openFile path =>
    obtain ⟨_,_,rfl⟩ | ⟨_,_,rfl⟩ := answered
    · exact grows_create _ _
    · exact still rfl
  | writeFile fd b =>
    cases fd with
    | none => obtain rfl := answered; exact still rfl
    | some f =>
      obtain ⟨_,rfl⟩ | ⟨_,rfl | ⟨_,rfl⟩⟩ := answered
      · exact grows_append _ _ _
      · exact still rfl
      · exact grows_append _ _ _

end store

/-- What a task may write, and which paths it may record. -/
def Stores (md5 : Bytes → Digest) : Unit × Store → Call → Prop := fun w c =>
  match c with
  | .writeFile (some f) b => f = hashFile (md5 b) ∧ w.2.files f ≠ none
  | .query (.insert _ _ _ path _ _) => Known md5 w.2 path
  | .redis (.sadd _ path) => Known md5 w.2 path
  | _ => True

/-- The answers of the world, seen from the store: the connection may be in any state. -/
def Shared (env : Env) (me : Nat) : Handler signature (Unit × Store) := fun w c r w' =>
  ∃ conn conn', Sys env me ⟨conn,w.2⟩ c r ⟨conn',w'.2⟩

section calls
variable {md5 : Bytes → Digest} {env : Env} {K : Redis.State → Prop} {me : Nat} {s s' : Store}

theorem addressed_files (addressed : Addressed md5 K s) (grows : Grows s s') (redis : s'.redis = s.redis)
    (table : s'.table = s.table)
    (digests : ∀ d blocks, s'.files (hashFile d) = some blocks → ∀ b ∈ blocks, md5 b.data = d) :
    Addressed md5 K s' := by
  refine ⟨by rw [redis]; exact addressed.redis,digests,fun row inside file => ?_,fun x inside => ?_⟩
  · rw [table] at inside
    exact known_grows grows (addressed.rows row inside file)
  · rw [redis] at inside
    exact known_grows grows (addressed.cached x inside)

theorem create_refines (addressed : Addressed md5 K s) (f : File) :
    Addressed md5 K {s with files := s.files.create f} ∧
      contentStore md5 {s with files := s.files.create f} = contentStore md5 s := by
  have held {g : File} {blocks : Blocks} (after : s.files.create f g = some blocks) :
      s.files g = some blocks ∨ blocks = [] := by
    by_cases same : g = f
    · subst same
      rw [Files.create_self] at after
      cases before : s.files g with
      | none => rw [before] at after; exact .inr (Option.some.inj after).symm
      | some old => rw [before] at after; exact .inl after
    · exact .inl (by simpa [same] using after)
  constructor
  · refine addressed_files addressed (grows_create s f) rfl rfl fun d blocks after b inside => ?_
    obtain before | rfl := held after
    · exact addressed.digests d blocks before b inside
    · cases inside
  · refine ContentStore.Store.ext (Set.ext fun b => ⟨fun holds => ?_,holds_grows (grows_create s f)⟩) rfl
    obtain ⟨blocks,after,x,inside,same⟩ := holds
    obtain before | rfl := held after
    · exact ⟨blocks,before,x,inside,same⟩
    · cases inside

theorem append_refines (addressed : Addressed md5 K s) {b : Bytes} (present : s.files (hashFile (md5 b)) ≠ none) :
    Addressed md5 K {s with files := s.files.append (hashFile (md5 b)) ⟨me,b⟩} ∧
      contentStore md5 {s with files := s.files.append (hashFile (md5 b)) ⟨me,b⟩} =
        {contentStore md5 s with contents := insert b (contentStore md5 s).contents} := by
  obtain ⟨old,before⟩ := Option.ne_none_iff_exists'.mp present
  have grows := grows_append s (hashFile (md5 b)) ⟨me,b⟩
  have here : s.files.append (hashFile (md5 b)) ⟨me,b⟩ (hashFile (md5 b)) = some (old ++ [⟨me,b⟩]) := by
    simp [before]
  constructor
  · refine addressed_files addressed grows rfl rfl fun d blocks after x inside => ?_
    by_cases same : d = md5 b
    · subst same
      obtain rfl := Option.some.inj (here.symm.trans after)
      obtain earlier | new := List.mem_append.mp inside
      · exact addressed.digests _ old before x earlier
      · rw [List.mem_singleton.mp new]
    · have other := hashFile_injective.ne same
      exact addressed.digests d blocks (by simpa [other] using after) x inside
  · refine ContentStore.Store.ext (Set.ext fun c => ⟨fun holds => ?_,fun holds => ?_⟩) rfl
    · obtain ⟨blocks,after,x,inside,same⟩ := holds
      by_cases digest : md5 c = md5 b
      · rw [digest] at after
        obtain rfl := Option.some.inj (here.symm.trans after)
        obtain earlier | new := List.mem_append.mp inside
        · exact .inr ⟨old,by rw [digest]; exact before,x,earlier,same⟩
        · exact .inl (by rw [← same,List.mem_singleton.mp new])
      · have other := hashFile_injective.ne digest
        exact .inr ⟨blocks,by simpa [other] using after,x,inside,same⟩
    · obtain rfl | earlier := holds
      · exact ⟨_,here,_,List.mem_append_right _ (List.mem_singleton_self _),rfl⟩
      · exact holds_grows grows earlier

/-- A permitted call is a step of the content store, or none. -/
theorem call_refines (truthful : Truthful env.redis K) (disk : env.DiskWorks) {w w' : World} {c : Call}
    {r : c.Res} (addressed : Addressed md5 K w.store) (allowed : Stores md5 ((),w.store) c)
    (answered : Sys env me w c r w') : Addressed md5 K w'.store ∧
      ContentStore.Run (naming md5) (contentStore md5 w.store) (contentStore md5 w'.store) := by
  have still {w' : World} (same : w'.store = w.store) : Addressed md5 K w'.store ∧
      ContentStore.Run (naming md5) (contentStore md5 w.store) (contentStore md5 w'.store) := by
    rw [same]
    exact ⟨addressed,.refl⟩
  have grows := sys_grows truthful addressed.redis answered
  cases c with
  | read | write | mmap | munmap | close | alloc | array | uninit | beyond =>
    apply still
    cases sys_changes answered <;> rfl
  | redis c =>
    obtain ⟨redis,asked,rfl⟩ := answered
    obtain ⟨⟨added,_⟩,state⟩ := truthful _ c r redis addressed.redis asked
    refine ⟨⟨state,addressed.digests,fun row inside file => known_grows grows (addressed.rows row inside file),?_⟩,
      .refl⟩
    intro x inside
    rw [show redis.added = _ from added] at inside
    cases c with
    | sadd key member =>
      obtain rfl | old := List.mem_cons.mp inside
      · exact known_grows grows allowed
      · exact known_grows grows (addressed.cached x old)
    | hmset | hgetall | sismember | setex => exact known_grows grows (addressed.cached x inside)
  | query statement =>
    cases statement with
    | insert userid filepath index path dirid filesize =>
      obtain ⟨_,rfl⟩ | ⟨_,_,rfl⟩ := answered
      · have known : Known md5 w.store path := allowed
        have file : OfFile ⟨userid,filepath,some index,path,dirid,filesize⟩ := ne_nil_of_known known
        refine ⟨⟨addressed.redis,addressed.digests,fun row inside file => ?_,addressed.cached⟩,?_⟩
        · obtain old | new := List.mem_append.mp inside
          · exact addressed.rows row old file
          · rw [List.mem_singleton.mp new]
            exact known
        · have more (row : Row) (file : OfFile row) : contentStore md5 {w.store with table := w.store.table ++ [row]} =
              {contentStore md5 w.store with records := (contentStore md5 w.store).records ++ [row]} := by
            simp [contentStore,Holds,file]
          rw [more _ file]
          exact .single (.link _ known)
      · exact still rfl
    | selectFiles | countPath => obtain ⟨rfl,_⟩ := answered; exact still rfl
  | openFile path =>
    obtain ⟨_,_,rfl⟩ | ⟨_,_,rfl⟩ := answered
    · obtain ⟨after,same⟩ := create_refines addressed (resolve env.cwd path)
      exact ⟨after,by rw [same]⟩
    · exact still rfl
  | writeFile fd b =>
    cases fd with
    | none => obtain rfl := answered; exact still rfl
    | some f =>
      obtain ⟨rfl,present⟩ := allowed
      obtain ⟨_,rfl⟩ | ⟨fails,_⟩ := answered
      · obtain ⟨after,same⟩ := @append_refines md5 K me w.store addressed b present
        exact ⟨after,by rw [same]; exact .single (.put b)⟩
      · exact absurd (disk.writes _) (fails.resolve_left disk.up)

end calls

/-- The calls that are permitted to any task at any time. -/
def Harmless : Call → Prop
  | .writeFile (some _) _ => False
  | .query (.insert ..) => False
  | .redis (.sadd ..) => False
  | _ => True

theorem present_grows {f : File} (s s' : Store) (grows : Grows s s') (present : s.files f ≠ none) :
    s'.files f ≠ none := by
  obtain ⟨blocks,held⟩ := Option.ne_none_iff_exists'.mp present
  obtain ⟨blocks',held',_⟩ := grows.files f blocks held
  simp [held']

theorem only_downloadfile (fh : Fileheader) (filename : Bytes) (userid : UInt64) :
    Only Harmless (downloadfile fh filename userid) := by
  apply only_bind (only_getfilelist trivial)
  intro list
  exact only_sendFiles trivial (fun _ _ => trivial) (fun _ => trivial) (fun _ _ => trivial) (fun _ => trivial)
    (fun fd => by cases fd <;> trivial) list

section tasks
variable {md5 : Bytes → Digest} {env : Env} {K : Redis.State → Prop} {me : Nat} {α : Type}

/-- One task among others, which only add to the store. -/
abbrev Safe (md5 : Bytes → Digest) (env : Env) (K : Redis.State → Prop) (me : Nat) (job : Job α)
    (post : Except Halt α → Unit × Store → Prop) (w : Unit × Store) : Prop :=
  Wp (Relied (Shared env me) Grows (Addressed md5 K)) (Throughout Grows (Addressed md5 K) (Stores md5)) job post w

variable (truthful : Truthful env.redis K) {post : Except Halt α → Unit × Store → Prop} {w : Unit × Store}

theorem harmless_stores {c : Call} (harmless : Harmless c) (w : Unit × Store) : Stores md5 w c := by
  cases c with
  | query statement => cases statement <;> trivial
  | redis command => cases command <;> trivial
  | writeFile fd b => cases fd <;> trivial
  | _ => trivial

include truthful

/-- What is once there is there after harmless calls too. -/
theorem safe_harmless {job : Job α} {J : Store → Prop} (only : Only Harmless job)
    (grows : ∀ s s', Grows s s' → J s → J s') (start : J w.2)
    (after : ∀ out w, J w.2 → post out w) : Safe md5 env K me job post w := by
  apply wp_only (K := fun w : Unit × Store => J w.2) only start
  · rintro ⟨_,s⟩ c r ⟨_,s'⟩ held _ ⟨g,since,addressed,conn,conn',answered⟩
    exact grows _ _ (sys_grows truthful addressed.redis answered) (grows _ _ since held)
  · exact fun w c _ harmless g _ _ => harmless_stores harmless _
  · exact after

/-- A harmless call, with what its answer tells. -/
theorem safe_ask {c : Call} {post : Except Halt c.Res → Unit × Store → Prop} {J : Store → Prop}
    (grows : ∀ s s', Grows s s' → J s → J s') (start : J w.2)
    (allowed : ∀ s, Addressed md5 K s → J s → Stores md5 ((),s) c)
    (after : ∀ r w w', Addressed md5 K w.store → J w'.store → Sys env me w c r w' → post (.ok r) ((),w'.store)) :
    Safe md5 env K me (ask c) post w := by
  refine ⟨fun g since addressed => allowed g addressed (grows _ _ since start),?_⟩
  rintro r ⟨_,s'⟩ ⟨g,since,addressed,conn,conn',answered⟩
  have kept := grows _ _ (sys_grows truthful addressed.redis answered) (grows _ _ since start)
  exact after r _ _ addressed kept answered

theorem safe_free {c : Call} {post : Except Halt c.Res → Unit × Store → Prop} (harmless : Harmless c)
    (after : ∀ r w w', Addressed md5 K w.store → Sys env me w c r w' → post (.ok r) ((),w'.store)) :
    Safe md5 env K me (ask c) post w :=
  safe_ask (J := fun _ => True) truthful (fun _ _ _ _ => trivial) trivial
    (fun _ _ _ => harmless_stores harmless _) fun r w w' addressed _ => after r w w' addressed

theorem safe_redis {c : Command} {post : Except Halt c.Reply → Unit × Store → Prop} {J : Store → Prop}
    (grows : ∀ s s', Grows s s' → J s → J s') (start : J w.2)
    (allowed : ∀ s, Addressed md5 K s → J s → Stores md5 ((),s) (.redis c))
    (after : ∀ reply w w', Addressed md5 K w.store → J w'.store → Sys env me w (.redis c) (.ok reply) w' →
      post (.ok reply) ((),w'.store)) (thrown : ∀ e w, post (.error e) w) :
    Safe md5 env K me (redis c) post w := by
  apply wp_bind
  apply safe_ask truthful grows start allowed
  rintro (e | reply) w w' addressed held answered
  · exact thrown _ _
  · exact after reply w w' addressed held answered

theorem safe_isfileexits {path : Bytes} (named : path ≠ []) (userid : UInt64) (w : Unit × Store) :
    Safe md5 env K me (isfileexits path userid)
      (After (fun found w => found = true → Known md5 w.2 path) fun _ _ => True) w := by
  apply wp_bind
  refine safe_redis (J := fun _ => True) truthful (fun _ _ _ _ => trivial) trivial (fun _ _ _ => trivial) ?_
    fun _ _ => trivial
  rintro found w w' addressed - answered
  have grown := sys_grows truthful addressed.redis answered
  obtain ⟨redis,asked,rfl⟩ := answered
  dsimp only [After]
  split_ifs with cached
  · obtain rfl : found = true := cached
    have told := (truthful _ _ _ redis addressed.redis asked).1.2
    exact fun _ => known_grows grown (addressed.cached _ told)
  · apply wp_bind
    refine safe_free truthful trivial ?_
    rintro count w w' addressed ⟨rfl,rfl | ⟨rfl,_⟩⟩
    · dsimp only [After]
      split_ifs with small
      · intro found
        obtain ⟨row,inside,rfl⟩ := pathCount_pos.mp (of_decide_eq_true found)
        exact addressed.rows row inside named
      · trivial
    · trivial

theorem safe_receiveChecked (fh : Fileheader) (b : Bytes) (w : Unit × Store) :
    Safe md5 env K me (receiveChecked md5 fh b) (After (fun b _ => md5 b = fh.md5) fun _ _ => True) w := by
  refine wp_loop (J := fun _ _ => True) (Q := fun b _ => md5 b = fh.md5) trivial (fun b w _ => ?_)
    fun b w right => right
  apply wp_bind
  apply safe_harmless (J := fun _ => True) truthful (only_receive (fun _ => trivial) b _)
    (fun _ _ _ _ => trivial) trivial
  rintro (e | b) w -
  · trivial
  dsimp only [After]
  split_ifs with right
  · exact right
  · apply wp_bind
    apply safe_harmless (J := fun _ => True) truthful (only_send (fun _ _ => trivial) _ _)
      (fun _ _ _ _ => trivial) trivial
    rintro (e | _) w - <;> trivial

/-- The path that `savefile` returns is that of a stored content. -/
theorem safe_savefile (disk : env.DiskWorks) (fh : Fileheader) (userid : UInt64) (w : Unit × Store) :
    Safe md5 env K me (savefile md5 fh userid) (After (fun path w => Known md5 w.2 path) fun _ _ => True) w := by
  apply wp_bind
  apply wp_mono _ (safe_isfileexits truthful (hashPath_ne_nil fh.md5) userid w)
  rintro (e | found) w known
  · trivial
  dsimp only [After] at known ⊢
  apply wp_bind
  apply safe_harmless truthful (only_send (fun _ _ => trivial) _ _) (J := fun s => found = true → Known md5 s _)
    (fun _ _ grows held is => known_grows grows (held is)) known
  rintro (e | _) w known
  · trivial
  dsimp only [After]
  split_ifs with is short
  · exact known is
  · trivial
  apply wp_bind
  refine safe_free truthful trivial ?_
  rintro memory w w' - -
  match memory with
  | none => trivial
  | some b =>
    apply wp_bind
    apply wp_mono _ (safe_receiveChecked truthful fh b _)
    rintro (e | b) w right
    · trivial
    dsimp only [After] at right ⊢
    apply wp_bind
    refine safe_free truthful trivial ?_
    rintro fd w w' - (⟨rfl,_,rfl⟩ | ⟨_,fails,_⟩)
    · dsimp only [After]
      rw [resolve_hashPath,← right]
      apply wp_bind
      refine safe_ask (J := fun s => s.files (hashFile (md5 b)) ≠ none) truthful present_grows (by simp)
        (fun s _ present => ⟨rfl,present⟩) ?_
      rintro _ w w' addressed present (⟨_,rfl⟩ | ⟨fails,_⟩)
      · have known : Known md5 {w.store with files := w.store.files.append (hashFile (md5 b)) ⟨me,b⟩}
            (hashPath (md5 b)) := by
          obtain ⟨old,held⟩ : ∃ old, w.store.files (hashFile (md5 b)) = some old := by
            apply Option.ne_none_iff_exists'.mp
            intro absent
            simp [absent] at present
          exact ⟨b,⟨old ++ [⟨me,b⟩],by simp [held],_,List.mem_append_right _ (List.mem_singleton_self _),rfl⟩,rfl⟩
        dsimp only [After]
        apply wp_bind
        refine safe_harmless truthful (only_ask trivial) (fun _ _ => known_grows) known ?_
        rintro (e | _) w known
        · trivial
        · exact known
      · exact absurd (disk.writes _) (fails.resolve_left disk.up)
    · exact absurd (disk.opens _) (fails.resolve_left disk.up)

theorem safe_upload (disk : env.DiskWorks) (fh : Fileheader) (filename : Bytes) (userid : UInt64)
    (w : Unit × Store) : Safe md5 env K me (upload md5 fh filename userid) (fun _ _ => True) w := by
  apply wp_bind
  apply wp_mono _ (safe_savefile truthful disk fh userid w)
  rintro (e | path) w known
  · trivial
  dsimp only [After] at known ⊢
  apply wp_bind
  refine safe_ask truthful (fun _ _ => known_grows) known (fun s _ known => known) ?_
  intro _ _ w' _ known _
  dsimp only [After]
  apply wp_bind
  refine safe_redis truthful (fun _ _ => known_grows) known (fun s _ known => known) ?_ fun _ _ => trivial
  intro _ _ w' _ known _
  exact safe_redis (J := fun _ => True) truthful (fun _ _ _ _ => trivial) trivial (fun _ _ _ => trivial)
    (fun _ _ _ _ _ _ => trivial) fun _ _ => trivial

theorem safe_process (disk : env.DiskWorks) (w : Unit × Store) :
    Safe md5 env K me (process md5) (fun _ _ => True) w := by
  have rest {α : Type} {job : Job α} {f : α → Job Unit} (only : Only Harmless job) (w : Unit × Store)
      (after : ∀ a w, Safe md5 env K me (f a) (fun _ _ => True) w) :
      Safe md5 env K me (job.bind f) (fun _ _ => True) w := by
    apply wp_bind
    refine safe_harmless (J := fun _ => True) truthful only (fun _ _ _ _ => trivial) trivial ?_
    rintro (e | a) w -
    · trivial
    · exact after a w
  refine rest (only_receive (fun _ => trivial) _ _) w fun buff w => ?_
  refine rest (only_ask (c := .beyond) trivial) w fun beyond w => ?_
  refine rest (only_validate trivial) w fun answer w => ?_
  refine rest (only_send (fun _ _ => trivial) _ _) w fun _ w => ?_
  dsimp only
  split_ifs
  · refine rest (only_ask (c := .array _) trivial) w fun fits w => ?_
    match fits with
    | false => trivial
    | true =>
    refine rest (only_receive (fun _ => trivial) _ _) w fun filename w => ?_
    refine rest (only_receive (fun _ => trivial) _ _) w fun fheaderinfo w => ?_
    split_ifs
    · exact safe_upload truthful disk _ _ _ w
    · exact safe_harmless (J := fun _ => True) truthful (only_downloadfile _ _ _) (fun _ _ _ _ => trivial) trivial
        fun _ _ _ => trivial
  · trivial
  · trivial

end tasks

section servers
variable {cfg : Config} {K : Redis.State → Prop} {s s' : State}

/-- Every task goes on as it should, whatever the others add to the store. -/
structure Safely (cfg : Config) (K : Redis.State → Prop) (s : State) : Prop where
  store : Addressed cfg.md5 K s.store
  tasks : ∀ i task job, s.threads i = some (task,job) →
    Safe cfg.md5 cfg.env K task job (fun _ _ => True) ((),s.store)

theorem safely_start {store : Store} (addressed : Addressed cfg.md5 K store) : Safely cfg K (.start store) :=
  ⟨addressed,fun _ _ _ held => by cases held⟩

variable (truthful : Truthful cfg.env.redis K) (disk : cfg.env.DiskWorks)
include truthful disk

theorem server_step_refines (safely : Safely cfg K s) (step : ServerStep cfg s s') :
    Safely cfg K s' ∧ Grows s.store s'.store ∧
      ContentStore.Run (naming cfg.md5) (contentStore cfg.md5 s.store) (contentStore cfg.md5 s'.store) := by
  have quiet {s' : State} (store : s'.store = s.store) (threads : ∀ i x, s'.threads i = some x →
      s.threads i = some x ∨ x.2 = process cfg.md5) : Safely cfg K s' ∧ Grows s.store s'.store ∧
      ContentStore.Run (naming cfg.md5) (contentStore cfg.md5 s.store) (contentStore cfg.md5 s'.store) := by
    refine ⟨⟨by rw [store]; exact safely.store,fun i task job held => ?_⟩,by rw [store]; exact refl_of Grows _,
      by rw [store]⟩
    obtain same | new := threads i _ held
    · rw [store]
      exact safely.tasks i task job same
    · obtain rfl : job = process cfg.md5 := new
      exact safe_process truthful disk _
  cases step with
  | client _ step => cases step <;> exact quiet rfl fun _ _ held => .inl held
  | loop _ step => cases step <;> exact quiet rfl fun _ _ held => .inl held
  | thread _ step =>
    cases step with
    | @pop i task rest thread idle first =>
      refine quiet rfl fun j x held => ?_
      obtain ⟨_,same⟩ | ⟨_,before⟩ := updated_cell held
      · cases same
        exact .inr rfl
      · exact .inl before
    | @finish i task running =>
      refine quiet rfl fun j x held => ?_
      obtain ⟨_,same⟩ | ⟨_,before⟩ := updated_cell held
      · cases same
      · exact .inl before
    | terminate | sigpipe => exact quiet rfl fun _ _ held => .inl held
    | @process i task later job job' o event w running place object step =>
      have seen : Step (Shared cfg.env task) job ((),s.store) event job' ((),w.store) :=
        @step_view _ _ _ World _ _ _ (fun w => ((),w.store)) _ _ _ _ _ (fun c r answered => ⟨_,_,answered⟩) step
      have own := wp_step (step_relied safely.store seen) (safely.tasks i task job running)
      have moved : Addressed cfg.md5 K w.store ∧ Grows s.store w.store ∧
          ContentStore.Run (naming cfg.md5) (contentStore cfg.md5 s.store) (contentStore cfg.md5 w.store) := by
        cases step with
        | loop => exact ⟨safely.store,refl_of Grows _,.refl⟩
        | call answered =>
          have allowed := own.1 _ rfl s.store (refl_of Grows _) safely.store
          have grows := sys_grows truthful safely.store.redis answered
          obtain ⟨addressed,run⟩ := call_refines truthful disk safely.store allowed answered
          exact ⟨addressed,grows,run⟩
      refine ⟨⟨moved.1,fun j task' job'' held => ?_⟩,moved.2⟩
      obtain ⟨_,same⟩ | ⟨_,before⟩ := updated_cell held
      · cases same
        exact own.2
      · exact wp_moved (fun _ _ _ _ _ _ => trivial) moved.2.1 (safely.tasks j task' job'' before)

theorem server_run_refines (safely : Safely cfg K s) (run : Relation.ReflTransGen (ServerStep cfg) s s') :
    Safely cfg K s' ∧ Grows s.store s'.store ∧
      ContentStore.Run (naming cfg.md5) (contentStore cfg.md5 s.store) (contentStore cfg.md5 s'.store) := by
  induction run with
  | refl => exact ⟨safely,refl_of Grows _,.refl⟩
  | tail _ step ih =>
    obtain ⟨after,grows,run⟩ := server_step_refines truthful disk ih.1 step
    exact ⟨after,trans_of Grows ih.2.1 grows,ih.2.2.trans run⟩

/-- In every run of the server its disk and the rows of files are those of a content store, to which nothing
is done but to put contents and to link rows to contents that are there. -/
theorem server_refines {store : Store} (addressed : Addressed cfg.md5 K store)
    (run : Relation.ReflTransGen (ServerStep cfg) (.start store) s) :
    ContentStore.Run (naming cfg.md5) (contentStore cfg.md5 store) (contentStore cfg.md5 s.store) ∧
      Addressed cfg.md5 K s.store ∧ Grows store s.store := by
  obtain ⟨safely,grows,refined⟩ := server_run_refines truthful disk (safely_start addressed) run
  exact ⟨refined,safely.store,grows⟩

/-- What a row names stays with it: the content is there from then on, and where no two stored
contents have one digest it is the only one under the path. -/
theorem recorded_for_good {store : Store} (addressed : Addressed cfg.md5 K store)
    (run : Relation.ReflTransGen (ServerStep cfg) (.start store) s) {row : Row} (recorded : row ∈ s.store.table)
    (file : OfFile row) :
    ∃ b, hashPath (cfg.md5 b) = row.hashfilepath ∧ ∀ s', Relation.ReflTransGen (ServerStep cfg) s s' →
      row ∈ s'.store.table ∧ Holds cfg.md5 s'.store b ∧
      (Set.InjOn cfg.md5 {b | Holds cfg.md5 s'.store b} →
        (naming cfg.md5).get (contentStore cfg.md5 s'.store) row.hashfilepath = {b}) := by
  have safely := (server_run_refines truthful disk (safely_start addressed) run).1
  obtain ⟨b,found⟩ := safely.store.rows row recorded file
  refine ⟨b,found.2,fun s' later => ?_⟩
  obtain ⟨_,grows,refined⟩ := server_run_refines truthful disk safely later
  refine ⟨grows.table.subset recorded,holds_grows grows found.1,fun injective => ?_⟩
  have keys : Set.InjOn (naming cfg.md5).key (contentStore cfg.md5 s'.store).contents :=
    fun c here c' there same => injective here there (hashPath_injective same)
  exact ContentStore.run_get keys refined found

end servers

theorem truthful_typed : Truthful typed Redis.State.Sound :=
  fun _ _ _ _ sound asked => ⟨typed_forgetful sound asked,typed_sound sound asked⟩

theorem truthful_forgetful : Truthful forgetful fun _ => True := fun _ _ _ _ _ asked => ⟨asked,trivial⟩

theorem truthful_expiring : Truthful expiring Redis.State.Sound := by
  rintro s c r s' sound ⟨k,expired,asked⟩
  have still : Redis.State.Sound ⟨k,s.added⟩ := by
    intro key m inside
    obtain same | ⟨gone,_⟩ := expired key
    · exact sound key m (by simpa [members,same] using inside)
    · simp [members,gone] at inside
  have told : forgetful ⟨k,s.added⟩ c r s' := typed_forgetful still asked
  exact ⟨told,typed_sound still asked⟩

section sample
open FileTaskRuns UploadHistory RowOrigins

/-- The table has a directory already. -/
def sampleShelf : Store := {sampleStart with table := [⟨1,ascii "docs",none,[],0,0⟩]}

theorem sample_addressed : Addressed sampleMd5 Redis.State.Sound sampleShelf where
  redis := sampleStart_sound
  digests _ _ held := by cases held
  rows row inside file := by
    obtain rfl := List.mem_singleton.mp inside
    exact absurd rfl file
  cached _ none := absurd none List.not_mem_nil

/-- A file is uploaded next to it. -/
theorem sample_uploaded : ∃ s, Relation.ReflTransGen (ServerStep sampleServer) (.start sampleShelf) s ∧
    s.store.table = sampleShelf.table ++ [newRow sampleFirst.fileheader sampleFirst.filename 1] := by
  have some : sampleFirst.bytes ≠ [] := by decide
  exact sample_served some (by decide +kernel)

theorem sample_server_refines : ∃ s : State,
    s.store.table = sampleShelf.table ++ [newRow sampleFirst.fileheader sampleFirst.filename 1] ∧
    ContentStore.Run (naming sampleMd5) (contentStore sampleMd5 sampleShelf) (contentStore sampleMd5 s.store) ∧
    Addressed sampleMd5 Redis.State.Sound s.store ∧ Grows sampleShelf s.store := by
  obtain ⟨s,run,table⟩ := sample_uploaded
  exact ⟨s,table,@server_refines sampleServer _ _ truthful_typed (calm_disk _) _ sample_addressed run⟩

theorem sample_recorded_for_good : ∃ s : State, ∃ b,
    hashPath (sampleMd5 b) = (newRow sampleFirst.fileheader sampleFirst.filename 1).hashfilepath ∧
    ∀ s', Relation.ReflTransGen (ServerStep sampleServer) s s' →
      newRow sampleFirst.fileheader sampleFirst.filename 1 ∈ s'.store.table ∧ Holds sampleMd5 s'.store b ∧
      (Set.InjOn sampleMd5 {b | Holds sampleMd5 s'.store b} →
        (naming sampleMd5).get (contentStore sampleMd5 s'.store)
          (newRow sampleFirst.fileheader sampleFirst.filename 1).hashfilepath = {b}) := by
  obtain ⟨s,run,table⟩ := sample_uploaded
  exact ⟨s,@recorded_for_good sampleServer _ _ truthful_typed (calm_disk _) _ sample_addressed run _
    (by simp [table]) (hashPath_ne_nil _)⟩

end sample

end FilediskServer.FileServer
