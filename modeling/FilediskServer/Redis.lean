import FilediskServer.Library.Bytes
import Mathlib.Logic.Function.Basic

/-! The Redis keyspace shared by the login service, the directory services and the TCP
server: one flat map from keys to typed values. A command on a key of another type is
answered by an error, which redis++ throws. -/
namespace FilediskServer.Redis
open Bytes

inductive Value
  | hash (fields : List (Bytes × Bytes))
  | set (members : List Bytes)
  | string (value : Bytes)
  deriving DecidableEq

/-- A value and whether a time to live is set on its key. -/
structure Entry where
  value : Value
  expires : Bool
  deriving DecidableEq

abbrev Keyspace := Bytes → Option Entry

inductive RedisError
  | wrongtype
  | other
  deriving DecidableEq

inductive Command
  | hmset (key : Bytes) (fields : List (Bytes × Bytes))
  | hgetall (key : Bytes)
  | sismember (key member : Bytes)
  | sadd (key member : Bytes)
  | setex (key : Bytes) (ttl : Nat) (value : Bytes)

def Command.key : Command → Bytes
  | .hmset key _ | .hgetall key | .sismember key _ | .sadd key _ | .setex key _ _ => key

abbrev Command.Reply : Command → Type
  | .hmset .. => Unit
  | .hgetall _ => List (Bytes × Bytes)
  | .sismember .. => Bool
  | .sadd .. => Unit
  | .setex .. => Unit

/-- A field keeps its place when it is set again; a new field goes last. -/
def setField (fields : List (Bytes × Bytes)) (field : Bytes × Bytes) : List (Bytes × Bytes) :=
  if fields.any (·.1 == field.1) then fields.map fun old => if old.1 == field.1 then field else old
  else fields ++ [field]

def exec (k : Keyspace) : (c : Command) → Except RedisError c.Reply × Keyspace
  | .hmset key fields =>
    match k key with
    | none => (.ok (),Function.update k key (some ⟨.hash (fields.foldl setField []),false⟩))
    | some ⟨.hash old,expires⟩ =>
      (.ok (),Function.update k key (some ⟨.hash (fields.foldl setField old),expires⟩))
    | some _ => (.error .wrongtype,k)
  | .hgetall key =>
    match k key with
    | none => (.ok [],k)
    | some ⟨.hash fields,_⟩ => (.ok fields,k)
    | some _ => (.error .wrongtype,k)
  | .sismember key member =>
    match k key with
    | none => (.ok false,k)
    | some ⟨.set members,_⟩ => (.ok (members.contains member),k)
    | some _ => (.error .wrongtype,k)
  | .sadd key member =>
    match k key with
    | none => (.ok (),Function.update k key (some ⟨.set [member],false⟩))
    | some ⟨.set members,expires⟩ =>
      (.ok (),Function.update k key (some ⟨.set (members.insert member),expires⟩))
    | some _ => (.error .wrongtype,k)
  | .setex key _ value => (.ok (),Function.update k key (some ⟨.string value,true⟩))

/-- Time passes between two commands: a key with a time to live may be gone. -/
def Expired (k k' : Keyspace) : Prop :=
  ∀ key, k' key = k key ∨ k' key = none ∧ ∃ e, k key = some e ∧ e.expires = true

/-- The key is absent or holds the type the command is for. -/
def Suits (k : Keyspace) : Command → Prop
  | .hmset key _ | .hgetall key => ∀ e, k key = some e → ∃ fields, e.value = .hash fields
  | .sismember key _ | .sadd key _ => ∀ e, k key = some e → ∃ members, e.value = .set members
  | .setex .. => True

theorem exec_ok_iff_suits (k : Keyspace) (c : Command) :
    (exec k c).1 ≠ .error .wrongtype ↔ Suits k c := by
  cases c with
  | setex key ttl value => simp [exec,Suits]
  | hmset key fields | hgetall key | sismember key member | sadd key member =>
    simp only [exec,Suits]
    split <;> rename_i found
    · simp [found]
    · simp [found]
    · rename_i entry other
      obtain ⟨value,expires⟩ := entry
      simp only [found,ne_eq,not_true_eq_false,false_iff,not_forall]
      refine ⟨⟨value,expires⟩,rfl,?_⟩
      rintro ⟨held,rfl⟩
      exact other held expires rfl

/-- What a run sees of Redis: the keyspace, and every member that a `sadd` has named for
a key. -/
structure State where
  keys : Keyspace
  added : List (Bytes × Bytes)

abbrev Semantics := State → (c : Command) → Except RedisError c.Reply → State → Prop

def record (added : List (Bytes × Bytes)) : Command → List (Bytes × Bytes)
  | .sadd key member => (key,member) :: added
  | _ => added

def typed : Semantics := fun s c r s' =>
  r = (exec s.keys c).1 ∧ s' = ⟨(exec s.keys c).2,record s.added c⟩

def expiring : Semantics := fun s c r s' => ∃ k, Expired s.keys k ∧ typed ⟨k,s.added⟩ c r s'

theorem expired_refl (k : Keyspace) : Expired k k := fun _ => .inl rfl

theorem expiring_of_typed {s s' : State} {c : Command} {r : Except RedisError c.Reply}
    (answered : typed s c r s') : expiring s c r s' := ⟨s.keys,expired_refl _,answered⟩

theorem Expired.held {k k' : Keyspace} (expired : Expired k k') {key : Bytes} {e : Entry}
    (held : k' key = some e) : k key = some e := by
  rcases expired key with same | ⟨gone,_⟩
  · exact same ▸ held
  · rw [gone] at held
    cases held

theorem Expired.gone {k k' : Keyspace} (expired : Expired k k') {key : Bytes} (gone : k key = none) :
    k' key = none := by
  rcases expired key with same | ⟨gone,_⟩
  · rw [same,gone]
  · exact gone

theorem suits_expired {k k' : Keyspace} {c : Command} (expired : Expired k k') (suits : Suits k c) :
    Suits k' c := by
  cases c with
  | setex => trivial
  | hmset | hgetall | sismember | sadd => exact fun e held => suits e (expired.held held)

theorem expiring_suits {s s' : State} {c : Command} {r : Except RedisError c.Reply}
    (suits : Suits s.keys c) (answered : expiring s c r s') : r ≠ .error .wrongtype := by
  obtain ⟨k,expired,rfl,_⟩ := answered
  exact (exec_ok_iff_suits k c).mpr (suits_expired expired suits)

theorem exec_reads (k : Keyspace) (key member : Bytes) :
    (exec k (.hgetall key)).2 = k ∧ (exec k (.sismember key member)).2 = k := by
  constructor <;> (simp only [exec]; split <;> rfl)

/-- A command leaves every key but its own as it is. -/
theorem exec_other {k : Keyspace} {c : Command} {key' : Bytes} (other : c.key ≠ key') :
    (exec k c).2 key' = k key' := by
  have apart := Ne.symm other
  cases c with
  | hgetall key | sismember key x => simp only [exec]; split <;> rfl
  | setex key ttl value => exact Function.update_of_ne apart ..
  | hmset key fields | sadd key x =>
    simp only [exec]
    split
    · exact Function.update_of_ne apart ..
    · exact Function.update_of_ne apart ..
    · rfl

def Honest (added : List (Bytes × Bytes)) : (c : Command) → Except RedisError c.Reply → Prop
  | .sismember key member, .ok true => (key,member) ∈ added
  | _, _ => True

/-- Redis may lose anything and fail at any time, but it invents no member of a set. -/
def forgetful : Semantics := fun s c r s' => s'.added = record s.added c ∧ Honest s.added c r

def members (k : Keyspace) (key : Bytes) : List Bytes :=
  match k key with
  | some ⟨.set held,_⟩ => held
  | _ => []

def State.Sound (s : State) : Prop := ∀ key, ∀ m ∈ members s.keys key, (key,m) ∈ s.added

private theorem members_update (k : Keyspace) (at' key : Bytes) (e : Option Entry) :
    members (Function.update k at' e) key =
      if key = at' then members (fun _ => e) key else members k key := by
  by_cases same : key = at'
  · subst same; simp [members]
  · simp [members,same]

theorem mem_record {added : List (Bytes × Bytes)} {x : Bytes × Bytes} (old : x ∈ added)
    (c : Command) : x ∈ record added c := by
  cases c with
  | sadd => simp [record,old]
  | _ => exact old

theorem mem_members_exec {k : Keyspace} {c : Command} {key m : Bytes}
    (inside : m ∈ members (exec k c).2 key) :
    m ∈ members k key ∨ ∀ added, (key,m) ∈ record added c := by
  cases c with
  | hgetall k' | sismember k' x =>
    simp only [exec] at inside
    split at inside <;> exact .inl inside
  | hmset k' fields =>
    simp only [exec] at inside
    split at inside
    · rw [members_update] at inside
      split at inside <;> simp_all [members]
    · rw [members_update] at inside
      split at inside <;> simp_all [members]
    · exact .inl inside
  | setex k' ttl value =>
    simp only [exec,members_update] at inside
    split at inside <;> simp_all [members]
  | sadd k' x =>
    simp only [exec] at inside ⊢
    split at inside <;> rename_i held
    · rw [members_update] at inside
      split at inside
      next same =>
        have fresh : m = x := by simpa [members] using inside
        exact .inr fun added => by simp [record,same,fresh]
      next => exact .inl inside
    · rw [members_update] at inside
      split at inside
      next same =>
        have either : m = x ∨ m ∈ members k k' := by simpa [members,held] using inside
        rcases either with fresh | old
        · exact .inr fun added => by simp [record,same,fresh]
        · exact .inl (same ▸ old)
      next => exact .inl inside
    · exact .inl inside

theorem typed_sound {s s' : State} {c : Command} {r : Except RedisError c.Reply}
    (sound : s.Sound) (answered : typed s c r s') : s'.Sound := by
  obtain ⟨rfl,rfl⟩ := answered
  intro key m inside
  rcases mem_members_exec inside with old | new
  · exact mem_record (sound key m old) c
  · exact new s.added

theorem typed_forgetful {s s' : State} {c : Command} {r : Except RedisError c.Reply}
    (sound : s.Sound) (answered : typed s c r s') : forgetful s c r s' := by
  obtain ⟨rfl,rfl⟩ := answered
  refine ⟨rfl,?_⟩
  cases c with
  | sismember key member =>
    cases answer : (exec s.keys (.sismember key member)).1 with
    | error e => trivial
    | ok found =>
      cases found with
      | false => trivial
      | true =>
        apply sound key member
        simp only [exec] at answer
        split at answer <;> simp_all [members]
  | _ => trivial

end FilediskServer.Redis
