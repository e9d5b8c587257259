import FilediskServer.DirInfoServer

/-! The sessions that the TCP server finds after any logins. -/
namespace FilediskServer.DirInfoServer
open Interaction Bytes Redis Disk Calls FileTask FileTaskRuns Downloads Utility

/-- The login that a uuid was last given to. -/
def lastLogin (logins : List Login) (uuid : Bytes) : Option Login :=
  (logins.filter (·.uuid = uuid)).getLast?

def Login.entry (login : Login) : Entry := ⟨.hash (sessionFields login.userid login.username),false⟩

section store
variable {k : Keyspace} {uuid : Bytes}

theorem lastLogin_own (logins : List Login) {login : Login} (own : login.uuid = uuid) :
    lastLogin (logins ++ [login]) uuid = some login := by
  simp [lastLogin,own]

theorem lastLogin_other (logins : List Login) {login : Login} (other : login.uuid ≠ uuid) :
    lastLogin (logins ++ [login]) uuid = lastLogin logins uuid := by
  simp [lastLogin,other]

theorem storeSession_other {login : Login} (other : login.uuid ≠ uuid) :
    storeSession k login uuid = k uuid := exec_other other

/-- A session replaces both fields of the one before it. -/
theorem storeSession_own {login : Login} {old : Option Login} (held : k login.uuid = old.map Login.entry) :
    storeSession k login login.uuid = some login.entry := by
  rw [storeSession,redisSessionTask]
  change (exec k (.hmset login.uuid (sessionFields login.userid login.username))).2 login.uuid = _
  cases old with
  | none =>
    simp only [exec,held,Option.map_none,Function.update_self,sessionFields_new]
    rfl
  | some before =>
    simp only [exec,held,Option.map_some,Login.entry,Function.update_self,sessionFields_set]

/-- What Redis holds for a uuid is what its last login stored, whatever the others were. -/
theorem stored_last (absent : k uuid = none) (logins : List Login) :
    logins.foldl storeSession k uuid = (lastLogin logins uuid).map Login.entry := by
  induction logins using List.reverseRecOn with
  | nil => exact absent
  | append_singleton logins login ih =>
    rw [List.foldl_append,List.foldl_cons,List.foldl_nil]
    by_cases own : login.uuid = uuid
    · rw [lastLogin_own logins own]
      subst own
      exact storeSession_own ih
    · rw [storeSession_other own,lastLogin_other logins own,ih]

end store

def validated (logins : List Login) (uuid : Bytes) : Bool × UInt64 :=
  match lastLogin logins uuid with
  | some login => (true,login.userid)
  | none => (false,-1)

/-- The TCP server finds the user of the last login, and no user where there was none. -/
theorem validate_last {k : Keyspace} {uuid : Bytes} (absent : k uuid = none) (logins : List Login)
    (cwd : File) (me : Nat) {w w' : World} {out : Except Halt (Bool × UInt64)}
    (keys : w.store.redis.keys = logins.foldl storeSession k) :
    (Runs (Sys (calm cwd) me) (validate uuid) w out w' ↔ out = .ok (validated logins uuid) ∧ w' = w) ∧
      ∀ userid : UInt64, stoull (decimal userid.toNat) = .ok userid := by
  refine ⟨?_,stoull_decimal⟩
  have stored := stored_last absent logins
  rw [← keys] at stored
  unfold validated
  cases last : lastLogin logins uuid with
  | none =>
    rw [last] at stored
    exact runs_validate_absent stored
  | some login =>
    rw [last] at stored
    exact runs_validate (session_stored stored)

def sampleLoggedIn : World :=
  ⟨⟨[],true,[]⟩,⟨⟨[sampleLogin].foldl storeSession fun _ => none,[]⟩,[],fun _ => none⟩⟩

theorem sample_validate_last : Runs (Sys (calm []) 0) (validate sampleUuid) sampleLoggedIn
    (.ok (true,7)) sampleLoggedIn :=
  (@validate_last (fun _ => none) sampleUuid rfl [sampleLogin] [] 0 sampleLoggedIn _ _ rfl).1.mpr ⟨rfl,rfl⟩

end FilediskServer.DirInfoServer
