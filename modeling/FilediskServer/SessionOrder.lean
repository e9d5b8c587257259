import FilediskServer.UserSign
import FilediskServer.Library.Threads

/-! When the session of a uuid is there. The response that hands a uuid out and the `hmset` of
its session are in flight at the same time. -/
namespace FilediskServer.UserSign
open Interaction Bytes CusInfo Redis Utility

/-- The session hash of a uuid is in Redis. -/
def Present (k : Keyspace) (uuid : Bytes) : Prop :=
  ∃ fields expires, k uuid = some ⟨.hash fields,expires⟩ ∧ fields ≠ []

/-- Whoever received a uuid has its session, and no server was told otherwise. -/
structure SessionFirst (s : State) : Prop where
  present : ∀ r ∈ s.received, r.2.code = 0 → Present s.keys r.2.uuid
  known : ∀ x ∈ s.replies, ∃ fields, x.2 = .ok fields ∧ fields ≠ []

/-- A response of code 0 arrives after its `hmset` has succeeded. -/
def StoredFirst (s s' : State) : Prop :=
  ∀ r, s'.received = s.received ++ [r] → r.2.code = 0 → r.1 ∈ s.stored

/-- No uuid is generated that is in use. -/
def NewUuid (s s' : State) : Prop :=
  ∀ x, s'.issued = s.issued ++ [x] → s.keys x.2 = none ∧ ∀ y ∈ s.issued, y.2 ≠ x.2

section keys
variable {k : Keyspace} {uuid : Bytes}

theorem present_reply (present : Present k uuid) :
    ∃ fields, (exec k (.hgetall uuid)).1 = .ok fields ∧ fields ≠ [] := by
  obtain ⟨fields,expires,held,some⟩ := present
  refine ⟨fields,?_,some⟩
  simp only [exec,held]

theorem setField_ne_nil (fields : List (Bytes × Bytes)) (field : Bytes × Bytes) :
    setField fields field ≠ [] := by
  unfold setField
  split_ifs with inside
  · cases fields with
    | nil => simp at inside
    | cons first rest => simp
  · simp

theorem foldl_setField_ne_nil {fields : List (Bytes × Bytes)} (old : List (Bytes × Bytes))
    (some : old ≠ [] ∨ fields ≠ []) : fields.foldl setField old ≠ [] := by
  induction fields generalizing old with
  | nil => simpa using some
  | cons field rest ih => exact ih _ (.inl (setField_ne_nil old field))

theorem present_hmset {key : Bytes} {fields : List (Bytes × Bytes)} (present : Present k uuid) :
    Present (exec k (.hmset key fields)).2 uuid := by
  by_cases same : key = uuid
  · subst same
    obtain ⟨old,expires,held,some⟩ := present
    refine ⟨fields.foldl setField old,expires,?_,foldl_setField_ne_nil old (.inl some)⟩
    simp only [exec,held]
    exact Function.update_self ..
  · obtain ⟨old,expires,held,some⟩ := present
    exact ⟨old,expires,(exec_other (by exact same)).trans held,some⟩

theorem stored_hmset {fields : List (Bytes × Bytes)} {u : Unit} (some : fields ≠ [])
    (answered : (exec k (.hmset uuid fields)).1 = .ok u) :
    Present (exec k (.hmset uuid fields)).2 uuid := by
  simp only [exec] at answered ⊢
  split at answered
  next => exact ⟨_,_,Function.update_self ..,foldl_setField_ne_nil [] (.inr some)⟩
  next old expires held => exact ⟨_,_,Function.update_self ..,foldl_setField_ne_nil old (.inr some)⟩
  next => cases answered

theorem refused_hmset {key : Bytes} {fields : List (Bytes × Bytes)} {e : RedisError}
    (answered : (exec k (.hmset key fields)).1 = .error e) : (exec k (.hmset key fields)).2 = k := by
  simp only [exec] at answered ⊢
  split at answered
  next => cases answered
  next => cases answered
  next => rfl

/-- A number has no dash. -/
theorem uuid_ne_decimal (text : UuidText uuid) (n : Nat) : uuid ≠ decimal n := by
  intro same
  have inside : 8 < uuid.length := by
    rw [text.length]
    omega
  have isDash := text.digits 8 inside
  rw [if_pos (.inl rfl)] at isDash
  have digit : isDigit uuid[8] = true := isDigit_of_mem_decimal (n := n) (same ▸ List.getElem_mem inside)
  rw [isDash] at digit
  exact absurd digit (by decide)

theorem cache_other {userid : UInt64} {c : Command} (of : CacheCommand userid c) (text : UuidText uuid) :
    (exec k c).2 uuid = k uuid := by
  apply exec_other
  cases of <;> exact (uuid_ne_decimal text _).symm

theorem present_expire {key value : Bytes} {expires : Bool} (held : k key = some ⟨.string value,expires⟩) :
    Present (Function.update k key none) uuid ↔ Present k uuid := by
  by_cases same : uuid = key
  · subst same
    constructor
    · rintro ⟨fields,_,there,_⟩
      rw [Function.update_self] at there
      cases there
    · rintro ⟨fields,_,there,_⟩
      rw [held] at there
      cases there
  · unfold Present
    rw [Function.update_of_ne same]

end keys

/-- What is in flight goes back to one request each, by its number and the uuid it was given. -/
structure Linked (s : State) : Prop where
  asked : ∀ q ∈ s.queries, q.id < s.asked ∧ ∀ x ∈ s.issued, x.1 ≠ q.id
  apart : s.queries.Pairwise fun q q' => q.id ≠ q'.id
  old : ∀ x ∈ s.issued, x.1 < s.asked
  once : ∀ x ∈ s.issued, ∀ y ∈ s.issued, x.1 = y.1 → x = y
  texts : ∀ x ∈ s.issued, UuidText x.2
  signed : ∀ r ∈ s.responses ++ s.received, r.2.code = 0 → (r.1,r.2.uuid) ∈ s.issued
  sessions : ∀ x ∈ s.hmsets, ∃ uuid userid name,
    x.2 = redisSessionTask uuid userid name ∧ (x.1,uuid) ∈ s.issued
  stored : ∀ id ∈ s.stored, ∃ uuid, (id,uuid) ∈ s.issued ∧ Present s.keys uuid
  followUps : ∀ uuid ∈ s.followUps, ∃ r ∈ s.received, r.2.code = 0 ∧ r.2.uuid = uuid

theorem linked_start (keys : Keyspace) : Linked (.start keys) where
  asked q inside := by cases inside
  apart := .nil
  old x inside := by cases inside
  once x inside := by cases inside
  texts x inside := by cases inside
  signed r inside := by cases inside
  sessions x inside := by cases inside
  stored id inside := by cases inside
  followUps uuid inside := by cases inside

theorem sessionFirst_start (keys : Keyspace) : SessionFirst (.start keys) where
  present r inside := by cases inside
  known x inside := by cases inside

section steps
variable {md5 : Bytes → Digest} {s s' : State}

theorem mem_split {α : Type} {before after : List α} {x y : α} (inside : y ∈ before ++ after) :
    y ∈ before ++ x :: after := by
  rw [List.mem_append] at inside ⊢
  exact inside.imp_right (List.mem_cons_of_mem x)

theorem mem_here {α : Type} {before after : List α} {x : α} : x ∈ before ++ x :: after :=
  List.mem_append_right _ List.mem_cons_self

/-- No step takes a session away. -/
theorem step_keeps (linked : Linked s) (step : SignStep md5 s s') {uuid : Bytes} (text : UuidText uuid)
    (present : Present s.keys uuid) : Present s'.keys uuid := by
  cases step with
  | request | query | hmsetFails | response | followUp | validate => exact present
  | hmset here =>
    obtain ⟨_,_,_,rfl,_⟩ := linked.sessions _ (here ▸ mem_here)
    exact present_hmset present
  | cache of =>
    obtain ⟨fields,expires,held,some⟩ := present
    exact ⟨fields,expires,(cache_other of text).trans held,some⟩
  | expire held => exact (present_expire held).mpr present

/-- A step that leaves the queries and what was issued as they are. -/
theorem linked_quiet (linked : Linked s) (step : SignStep md5 s s') (asked : s'.asked = s.asked)
    (queries : s'.queries = s.queries) (issued : s'.issued = s.issued)
    (signed : ∀ r ∈ s'.responses ++ s'.received, r ∈ s.responses ++ s.received)
    (hmsets : ∀ x ∈ s'.hmsets, x ∈ s.hmsets)
    (stored : ∀ id ∈ s'.stored, id ∈ s.stored ∨ ∃ uuid, (id,uuid) ∈ s.issued ∧ Present s'.keys uuid)
    (followUps : ∀ uuid ∈ s'.followUps, ∃ r ∈ s'.received, r.2.code = 0 ∧ r.2.uuid = uuid) :
    Linked s' where
  asked := by rw [asked,queries,issued]; exact linked.asked
  apart := by rw [queries]; exact linked.apart
  old := by rw [asked,issued]; exact linked.old
  once := by rw [issued]; exact linked.once
  texts := by rw [issued]; exact linked.texts
  signed r inside code := by rw [issued]; exact linked.signed r (signed r inside) code
  sessions x inside := by rw [issued]; exact linked.sessions x (hmsets x inside)
  stored id inside := by
    rw [issued]
    rcases stored id inside with before | new
    · obtain ⟨uuid,known,present⟩ := linked.stored id before
      exact ⟨uuid,known,step_keeps linked step (linked.texts _ known) present⟩
    · exact new
  followUps := followUps

theorem Linked.others {before after : List Query} {q : Query} (linked : Linked s)
    (here : s.queries = before ++ q :: after) :
    (before ++ after).Pairwise (fun q q' => q.id ≠ q'.id) ∧
      ∀ x ∈ before ++ after, x ∈ s.queries ∧ x.id ≠ q.id := by
  have apart := linked.apart
  rw [here,List.pairwise_append] at apart
  obtain ⟨first,last,between⟩ := apart
  obtain ⟨later,last⟩ := List.pairwise_cons.mp last
  constructor
  · exact List.pairwise_append.mpr ⟨first,last,fun x inside y there =>
      between x inside y (List.mem_cons_of_mem _ there)⟩
  · intro x inside
    refine ⟨here ▸ mem_split inside,?_⟩
    rcases List.mem_append.mp inside with left | right
    · exact between x left q List.mem_cons_self
    · exact (later x right).symm

theorem mem_answered {id : Nat} {rest : List Query} {answer : Option Command × UserRet}
    {r : Nat × UserRet} (inside : r ∈ (s.answer id rest answer).responses ++ s.received) :
    r ∈ s.responses ++ s.received ∨ r = (id,answer.2) := by
  simp only [State.answer] at inside
  rw [List.append_assoc,List.mem_append,List.mem_append,List.mem_singleton] at inside
  rcases inside with old | new | old
  · exact .inl (List.mem_append_left _ old)
  · exact .inr new
  · exact .inl (List.mem_append_right _ old)

theorem linked_answer {before after : List Query} {q : Query} {uuid : Bytes}
    {answer : Option Command × UserRet} (linked : Linked s) (here : s.queries = before ++ q :: after)
    (text : UuidText uuid) (answers : Answers uuid answer) :
    Linked (s.answer q.id (before ++ after) answer) := by
  have queried : q ∈ s.queries := here ▸ mem_here
  obtain ⟨young,new⟩ := linked.asked q queried
  obtain ⟨rest,others⟩ := linked.others here
  cases answers with
  | refused msg =>
    refine ⟨fun x inside => ?_,rest,?_,?_,?_,fun r inside code => ?_,?_,?_,linked.followUps⟩
    · simpa [State.answer] using linked.asked x (others x inside).1
    · simpa [State.answer] using linked.old
    · simpa [State.answer] using linked.once
    · simpa [State.answer] using linked.texts
    · rcases mem_answered inside with old | rfl
      · simpa [State.answer] using linked.signed r old code
      · cases code
    · simpa [State.answer] using linked.sessions
    · simpa [State.answer] using linked.stored
  | signed userid name =>
    have grown (x : Nat × Bytes) : x ∈ (s.answer q.id (before ++ after)
        (some (redisSessionTask uuid userid name),⟨0,ascii "ok!",uuid⟩)).issued ↔
        x ∈ s.issued ∨ x = (q.id,uuid) := by
      simp [State.answer]
    refine ⟨fun x inside => ?_,rest,fun x inside => ?_,fun x inside y there same => ?_,
      fun x inside => ?_,fun r inside code => ?_,fun x inside => ?_,fun id inside => ?_,
      linked.followUps⟩
    · obtain ⟨queried,other⟩ := others x inside
      refine ⟨(linked.asked x queried).1,fun y there => ?_⟩
      rcases (grown y).mp there with old | rfl
      · exact (linked.asked x queried).2 y old
      · exact other.symm
    · rcases (grown x).mp inside with old | rfl
      · exact linked.old x old
      · exact young
    · rcases (grown x).mp inside with first | rfl <;> rcases (grown y).mp there with second | rfl
      · exact linked.once x first y second same
      · exact absurd same (new x first)
      · exact absurd same.symm (new y second)
      · rfl
    · rcases (grown x).mp inside with old | rfl
      · exact linked.texts x old
      · exact text
    · rw [grown]
      rcases mem_answered inside with old | rfl
      · exact .inl (linked.signed r old code)
      · exact .inr rfl
    · have inside : x ∈ s.hmsets ∨ x = (q.id,redisSessionTask uuid userid name) := by
        simpa [State.answer] using inside
      rcases inside with old | rfl
      · obtain ⟨u,number,text,is,known⟩ := linked.sessions x old
        exact ⟨u,number,text,is,(grown _).mpr (.inl known)⟩
      · exact ⟨uuid,userid,name,rfl,(grown _).mpr (.inr rfl)⟩
    · obtain ⟨u,known,present⟩ := linked.stored id inside
      exact ⟨u,(grown _).mpr (.inl known),present⟩

/-- Redis has executed an `hmset`: its request is stored unless the key is of another type. -/
theorem stored_execute {before after : List (Nat × Command)} {id : Nat} {c : Command} (linked : Linked s)
    (here : s.hmsets = before ++ (id,c) :: after) (request : Nat)
    (inside : request ∈ (s.execute id c (before ++ after)).stored) :
    request ∈ s.stored ∨ request = id ∧
      ∃ uuid, (id,uuid) ∈ s.issued ∧ Present (s.execute id c (before ++ after)).keys uuid := by
  obtain ⟨uuid,userid,name,rfl,known⟩ := linked.sessions (id,c) (here ▸ mem_here)
  simp only [State.execute] at inside ⊢
  cases answered : (exec s.keys (redisSessionTask uuid userid name)).1 with
  | error e =>
    rw [answered] at inside
    exact .inl inside
  | ok u =>
    rw [answered] at inside
    rcases List.mem_cons.mp inside with rfl | old
    · exact .inr ⟨rfl,uuid,known,stored_hmset (by simp) answered⟩
    · exact .inl old

theorem linked_step (linked : Linked s) (step : SignStep md5 s s') : Linked s' := by
  have stepped := step
  cases step with
  | request request =>
    refine ⟨fun q inside => ?_,?_,fun x inside => (linked.old x inside).trans (Nat.lt_succ_self _),
      linked.once,linked.texts,linked.signed,linked.sessions,linked.stored,linked.followUps⟩
    · rcases List.mem_append.mp inside with old | new
      · exact ⟨(linked.asked q old).1.trans (Nat.lt_succ_self _),(linked.asked q old).2⟩
      · rw [List.mem_singleton.mp new]
        exact ⟨Nat.lt_succ_self _,fun x there => (linked.old x there).ne⟩
    · refine List.pairwise_append.mpr ⟨linked.apart,List.pairwise_singleton ..,fun q inside q' new => ?_⟩
      rw [List.mem_singleton.mp new]
      exact (linked.asked q inside).1.ne
  | query cursor here text => exact linked_answer linked here text (callback_answers ..)
  | @hmset before after id c here =>
    apply linked_quiet linked stepped rfl rfl rfl (fun _ inside => inside)
      (fun x inside => here ▸ mem_split inside) _ linked.followUps
    intro request inside
    rcases stored_execute linked here request inside with old | ⟨rfl,uuid,known,present⟩
    · exact .inl old
    · exact .inr ⟨uuid,known,present⟩
  | hmsetFails here =>
    exact linked_quiet linked stepped rfl rfl rfl (fun r => id)
      (fun x inside => here ▸ mem_split inside) (fun id => .inl) linked.followUps
  | @response before after r here =>
    refine linked_quiet linked stepped rfl rfl rfl (fun x inside => ?_) (fun x => id) (fun id => .inl)
      fun uuid inside => ?_
    · rw [here]
      simp only [List.append_assoc,List.mem_append,List.mem_cons] at inside ⊢
      tauto
    · obtain ⟨r,known,signed⟩ := linked.followUps uuid inside
      exact ⟨r,List.mem_append_left _ known,signed⟩
  | @followUp r known signed =>
    refine linked_quiet linked stepped rfl rfl rfl (fun x => id) (fun x => id) (fun id => .inl)
      fun uuid inside => ?_
    rcases List.mem_append.mp inside with old | new
    · exact linked.followUps uuid old
    · exact ⟨r,known,signed,(List.mem_singleton.mp new).symm⟩
  | validate here =>
    exact linked_quiet linked stepped rfl rfl rfl (fun x => id) (fun x => id) (fun id => .inl)
      fun uuid inside => linked.followUps uuid (here ▸ mem_split inside)
  | cache | expire =>
    exact linked_quiet linked stepped rfl rfl rfl (fun x => id) (fun x => id) (fun id => .inl)
      linked.followUps

/-- A response that comes too early is all that can go wrong. -/
theorem sessionFirst_step (linked : Linked s) (first : SessionFirst s) (step : SignStep md5 s s')
    (stored : StoredFirst s s') : SessionFirst s' := by
  have linked' := linked_step linked step
  have keeps (uuid : Bytes) (text : UuidText uuid) := step_keeps linked step text
  have quiet (received : s'.received = s.received) (replies : s'.replies = s.replies) :
      SessionFirst s' := by
    refine ⟨fun r inside code => ?_,fun x inside => first.known x (replies ▸ inside)⟩
    rw [received] at inside
    have issued := linked.signed r (List.mem_append_right _ inside) code
    exact keeps _ (linked.texts _ issued) (first.present r inside code)
  cases step with
  | request | query | hmset | hmsetFails | followUp | cache | expire => exact quiet rfl rfl
  | @response before after r here =>
    refine ⟨fun x inside code => ?_,first.known⟩
    rcases List.mem_append.mp inside with old | new
    · exact first.present x old code
    · obtain rfl := List.mem_singleton.mp new
      obtain ⟨uuid,known,present⟩ := linked.stored _ (stored x rfl code)
      have issued := linked.signed x (List.mem_append_left _ (here ▸ mem_here)) code
      cases linked.once _ known _ issued rfl
      exact present
  | @validate before after uuid here =>
    refine ⟨first.present,fun x inside => ?_⟩
    rcases List.mem_append.mp inside with old | new
    · exact first.known x old
    · obtain rfl := List.mem_singleton.mp new
      obtain ⟨r,received,code,rfl⟩ := linked.followUps uuid (here ▸ mem_here)
      exact present_reply (first.present r received code)

/-- Nobody but the request that was given a uuid stores its session. -/
structure Own (s : State) : Prop where
  stored : ∀ x ∈ s.issued, Present s.keys x.2 → x.1 ∈ s.stored
  apart : ∀ x ∈ s.issued, ∀ y ∈ s.issued, x.2 = y.2 → x = y

theorem own_start (keys : Keyspace) : Own (.start keys) where
  stored x inside := by cases inside
  apart x inside := by cases inside

theorem own_step (linked : Linked s) (own : Own s) (step : SignStep md5 s s') (new : NewUuid s s') :
    Own s' := by
  have quiet (issued : s'.issued = s.issued) (stored : s'.stored = s.stored)
      (keys : ∀ uuid, UuidText uuid → Present s'.keys uuid → Present s.keys uuid) : Own s' := by
    refine ⟨fun x inside present => ?_,by rw [issued]; exact own.apart⟩
    rw [issued] at inside
    rw [stored]
    exact own.stored x inside (keys _ (linked.texts x inside) present)
  cases step with
  | request | hmsetFails | response | followUp | validate => exact quiet rfl rfl fun _ _ => id
  | cache of =>
    refine quiet rfl rfl fun uuid text present => ?_
    obtain ⟨fields,expires,held,some⟩ := present
    exact ⟨fields,expires,(cache_other of text).symm.trans held,some⟩
  | expire held => exact quiet rfl rfl fun uuid _ => (present_expire held).mp
  | @query before after q name uuid cursor here text =>
    have answers := callback_answers md5 cursor name uuid q.request
    generalize q.request.callback md5 cursor name uuid = answer at answers new ⊢
    cases answers with
    | refused msg =>
      refine ⟨fun x inside => ?_,fun x inside y there => ?_⟩
      · exact own.stored x (by simpa [State.answer] using inside)
      · exact own.apart x (by simpa [State.answer] using inside) y (by simpa [State.answer] using there)
    | signed userid name =>
      obtain ⟨free,others⟩ := new (q.id,uuid) rfl
      have grown {x : Nat × Bytes} (inside : x ∈ s.issued ++ [(q.id,uuid)]) :
          x ∈ s.issued ∨ x = (q.id,uuid) := by simpa using inside
      refine ⟨fun x inside present => ?_,fun x inside y there same => ?_⟩
      · rcases grown inside with old | rfl
        · exact own.stored x old present
        · obtain ⟨fields,expires,held,_⟩ := present
          exact absurd (held.symm.trans free) nofun
      · rcases grown inside with first | rfl <;> rcases grown there with second | rfl
        · exact own.apart x first y second same
        · exact absurd same (others x first)
        · exact absurd same.symm (others y second)
        · rfl
  | @hmset before after id c here =>
    obtain ⟨uuid,userid,name,rfl,known⟩ := linked.sessions (id,c) (here ▸ mem_here)
    refine ⟨fun x inside present => ?_,own.apart⟩
    simp only [State.execute] at present ⊢
    cases answered : (exec s.keys (redisSessionTask uuid userid name)).1 with
    | error e =>
      rw [show (exec s.keys (redisSessionTask uuid userid name)).2 = s.keys from
        refused_hmset answered] at present
      exact own.stored x inside present
    | ok u =>
      by_cases same : x.2 = uuid
      · rw [own.apart x inside _ known same]
        exact List.mem_cons_self
      · refine List.mem_cons_of_mem _ (own.stored x inside ?_)
        obtain ⟨fields,expires,held,some⟩ := present
        exact ⟨fields,expires,(exec_other (Ne.symm same)).symm.trans held,some⟩

/-- A session that is there when its uuid arrives was stored by the request itself. -/
theorem storedFirst_of_present (linked : Linked s) (own : Own s) (step : SignStep md5 s s')
    (first : SessionFirst s') : StoredFirst s s' := by
  intro r arrived code
  cases step with
  | request | query | hmset | hmsetFails | followUp | validate | cache | expire =>
    exact absurd arrived (by simp [State.answer,State.execute])
  | @response before after r' here =>
    obtain rfl := List.singleton_inj.mp (List.append_cancel_left arrived)
    have issued := linked.signed r' (List.mem_append_left _ (here ▸ mem_here)) code
    exact own.stored _ issued (first.present r' (List.mem_append_right _ List.mem_cons_self) code)

end steps

/-- Along every run in which no code 0 overtakes its `hmset`, whoever has a uuid has its session.
Where uuids are new, nothing else helps. -/
theorem sessionFirst_iff {md5 : Bytes → Digest} {keys : Keyspace} {run : List State}
    (steps : (State.start keys :: run).IsChain (SignStep md5)) :
    ((State.start keys :: run).IsChain StoredFirst → ∀ s ∈ State.start keys :: run, SessionFirst s) ∧
    ((State.start keys :: run).IsChain NewUuid → (∀ s ∈ State.start keys :: run, SessionFirst s) →
      (State.start keys :: run).IsChain StoredFirst) := by
  constructor
  · intro stored s inside
    have kept := always_of_guarded (P := fun s => Linked s ∧ SessionFirst s) steps stored
      ⟨linked_start keys,sessionFirst_start keys⟩ fun _ _ both step stored =>
        ⟨linked_step both.1 step,sessionFirst_step both.1 both.2 step stored⟩
    exact (kept s inside).2
  · intro new all
    refine (always_iff_guarded (K := fun s => Linked s ∧ Own s) (chain_both steps new)
      ⟨linked_start keys,own_start keys⟩ (sessionFirst_start keys) fun s s' kept first step => ?_).mp all
    obtain ⟨linked,own⟩ := kept
    obtain ⟨step,new⟩ := step
    exact ⟨⟨sessionFirst_step linked first step,storedFirst_of_present linked own step⟩,
      fun _ => ⟨linked_step linked step,own_step linked own step new⟩⟩

section sample

def sampleRequest : Request := .signUp ⟨ascii "a",ascii "p"⟩ (ascii "ashdfdfisdlfdmfd")

def sampleMd5 : Bytes → Digest := fun _ _ => 0

def sampleAsked : State := {State.start (fun _ => none) with
  asked := 1, queries := [⟨0,sampleRequest,sampleRequest.sql sampleMd5⟩]}

/-- MySQL has inserted the user. The session and the response are in flight. -/
def sampleAnswered : State := sampleAsked.answer 0 []
  (SignUp.callback ⟨true,1,1,.long,⟨0,[],[],[]⟩⟩ (ascii "a") sampleUuid)

def sampleStored : State :=
  sampleAnswered.execute 0 (redisSessionTask sampleUuid 1 (ascii "a")) []

def State.arrived (s : State) : State := {s with
  responses := [], received := [(0,⟨0,ascii "ok!",sampleUuid⟩)]}

theorem sample_answered : [State.start (fun _ => none),sampleAsked,sampleAnswered].IsChain
    (SignStep sampleMd5) := by
  refine .cons_cons (.request sampleRequest) (.cons_cons ?_ (.singleton _))
  exact @SignStep.query _ sampleAsked [] [] _ (ascii "a") sampleUuid ⟨true,1,1,.long,⟨0,[],[],[]⟩⟩ rfl
    sampleUuid_text

theorem sample_arrives {s : State} (responses : s.responses = [(0,⟨0,ascii "ok!",sampleUuid⟩)])
    (received : s.received = []) : SignStep sampleMd5 s s.arrived := by
  have step : SignStep sampleMd5 s _ := @SignStep.response _ s [] [] _ responses
  rwa [received] at step

end sample

theorem sample_sessionFirst : ∃ run,
    (∃ s ∈ run, (0,⟨0,ascii "ok!",sampleUuid⟩) ∈ s.received ∧ SessionFirst s) ∧
    (State.start (fun _ => none) :: run).IsChain StoredFirst := by
  obtain ⟨asks,answers⟩ := List.isChain_cons_cons.mp sample_answered
  have stores : SignStep sampleMd5 sampleAnswered sampleStored :=
    @SignStep.hmset _ sampleAnswered [] [] 0 _ rfl
  have steps : [State.start (fun _ => none),sampleAsked,sampleAnswered,sampleStored,
      sampleStored.arrived].IsChain (SignStep sampleMd5) :=
    .cons_cons asks (.cons_cons (List.isChain_cons_cons.mp answers).1
      (.cons_cons stores (.cons_cons (sample_arrives rfl rfl) (.singleton _))))
  have stored : [State.start (fun _ => none),sampleAsked,sampleAnswered,sampleStored,
      sampleStored.arrived].IsChain StoredFirst := by
    refine .cons_cons nofun (.cons_cons nofun (.cons_cons nofun (.cons_cons ?_ (.singleton _))))
    intro r arrived _
    cases arrived
    exact List.mem_singleton_self 0
  have first := (sessionFirst_iff steps).1 stored
  exact ⟨_,⟨sampleStored.arrived,by simp,List.mem_singleton_self _,first _ (by simp)⟩,stored⟩

/-- The response is there and the session is not. -/
theorem response_overtakes : ¬ ∀ (md5 : Bytes → Digest) (keys : Keyspace) (run : List State),
    (State.start keys :: run).IsChain (SignStep md5) → ∀ s ∈ State.start keys :: run,
      ∀ r ∈ s.received, r.2.code = 0 → Present s.keys r.2.uuid := by
  intro present
  obtain ⟨asks,answers⟩ := List.isChain_cons_cons.mp sample_answered
  have run : [State.start (fun _ => none),sampleAsked,sampleAnswered,sampleAnswered.arrived].IsChain
      (SignStep sampleMd5) := .cons_cons asks (.cons_cons (List.isChain_cons_cons.mp answers).1
    (.cons_cons (sample_arrives rfl rfl) (.singleton _)))
  obtain ⟨_,_,held,_⟩ := present _ _ _ run sampleAnswered.arrived (by simp) _ (List.mem_singleton_self _) rfl
  cases held

end FilediskServer.UserSign
