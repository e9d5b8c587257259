import FilediskServer.FileServer
import FilediskServer.Library.Threads

/-! How many tasks read one connection. The loop posts a call for every round that reports
the connection, and takes nothing off it. -/
namespace FilediskServer.Readers
open Interaction Bytes Calls FileServer

/-- One call at most is queued or running for a connection; where its object stood there is none of
another connection; and what a call takes off its connection is one piece, into which nobody else
reads. -/
structure Exclusive (s : State) : Prop where
  single : ∀ p q t u c, s.callAt p = some t → s.callAt q = some u → s.conOf t = some c →
    s.conOf u = some c → p = q
  own : ∀ t u c d, s.Outstanding t → s.conOf t = some c → t ≤ u → s.conOf u = some d → d = c
  mine : ∀ c, ∀ x ∈ s.taken c, s.conOf x.1 = some c
  unsplit : ∀ t c, s.Outstanding t → s.conOf t = some c → ∀ x y : Nat × UInt8,
    [x,y].Sublist (s.taken c) → x.1 = t → y.1 = t
  together : ∀ c, ∀ x y z : Nat × UInt8, [x,y,z].Sublist (s.taken c) → x.1 = z.1 → y.1 = x.1

/-- An object is constructed when the calls that are queued or running are for its connection, and a
call is posted when there are none. -/
structure PostsAlone (s s' : State) : Prop where
  constructed : ∀ c, s'.conOf s.made = some c → ∀ u, s.Outstanding u → s.conOf u = some c
  posted : ∀ task rest, s.loop = .push task rest → s'.loop = .leave task rest → ∀ u, ¬ s.Outstanding u

/-- There is one unfinished task at most, the latest; later bytes were taken by later tasks. -/
structure Orderly (s : State) : Prop where
  sound : Sound s
  single : ∀ p q t u, s.callAt p = some t → s.callAt q = some u → p = q
  own : ∀ t u c d, s.Outstanding t → s.conOf t = some c → t ≤ u → s.conOf u = some d → d = c
  mine : ∀ c, ∀ x ∈ s.taken c, s.conOf x.1 = some c
  ordered : ∀ c, (s.taken c).Pairwise fun x y => x.1 ≤ y.1
  latest : ∀ t c, s.Outstanding t → s.conOf t = some c → ∀ x ∈ s.taken c, x.1 ≤ t

theorem exclusive_of_orderly {s : State} (orderly : Orderly s) : Exclusive s := by
  refine ⟨fun p q t u c first second _ _ => orderly.single p q t u first second,orderly.own,orderly.mine,
    fun t c held con x y pair first => ?_,fun c x y z triple same => ?_⟩
  · have ordered := (orderly.ordered c).sublist pair
    have low : x.1 ≤ y.1 := List.rel_of_pairwise_cons ordered (by simp)
    have high : y.1 ≤ t := orderly.latest t c held con y (pair.subset (by simp))
    omega
  · have ordered := (orderly.ordered c).sublist triple
    have low : x.1 ≤ y.1 := List.rel_of_pairwise_cons ordered (by simp)
    have high : y.1 ≤ z.1 := List.rel_of_pairwise_cons ordered.of_cons (by simp)
    omega

theorem orderly_start (store : Store) : Orderly (State.start store) :=
  ⟨sound_start store,fun p _ t _ held => absurd ⟨p,held⟩ (not_outstanding_start store t),
    fun t _ _ _ held => absurd held (not_outstanding_start store t),nofun,fun _ => .nil,
    fun t _ held => absurd held (not_outstanding_start store t)⟩

section steps
variable {cfg : Config} {s s' : State}

theorem callAt_posted {task : Nat} {rest : List Fd} {p : Place} {t : Nat}
    (held : State.callAt {s with que := s.que ++ [task], loop := .leave task rest} p = some t) :
    s.callAt p = some t ∨ (p = .queued s.que.length ∧ t = task) := by
  cases p with
  | running i => exact .inl held
  | queued k =>
    rcases lt_trichotomy k s.que.length with less | rfl | more
    · exact .inl (by simpa [State.callAt,List.getElem?_append_left less] using held)
    · refine .inr ⟨rfl,?_⟩
      simpa [State.callAt] using held.symm
    · rw [State.callAt,List.getElem?_eq_none (by simp; omega)] at held
      cases held

theorem callAt_kept {task : Nat} {rest : List Fd} {p : Place} {t : Nat} (held : s.callAt p = some t) :
    State.callAt {s with que := s.que ++ [task], loop := .leave task rest} p = some t := by
  cases p with
  | running i => exact held
  | queued k =>
    obtain ⟨inside,_⟩ := List.getElem?_eq_some_iff.mp held
    exact (List.getElem?_append_left inside).trans held

theorem single_step (orderly : Orderly s) (step : ServerStep cfg s s') (alone : PostsAlone s s') :
    ∀ p q t u, s'.callAt p = some t → s'.callAt q = some u → p = q := by
  intro p q t u first second
  cases server_calls step with
  | kept origin apart moved =>
    exact apart (orderly.single _ _ t u (moved p t first) (moved q u second))
  | posted task rest here after =>
    have none {p : Place} {t : Nat} (held : s.callAt p = some t) : False :=
      alone.posted task rest here (by rw [after]) t ⟨p,held⟩
    subst after
    rcases callAt_posted first with old | ⟨rfl,rfl⟩
    · exact (none old).elim
    · rcases callAt_posted second with old | ⟨rfl,rfl⟩
      · exact (none old).elim
      · rfl

theorem conOf_new {task c : Nat} (sound : Sound s) (step : ServerStep cfg s s') (new : s.made ≤ task)
    (con : s'.conOf task = some c) : task = s.made := by
  have absent := sound.fresh task new
  cases server_objects step task with
  | kept same => simp [State.conOf,same,absent] at con
  | constructed _ here => exact here.symm
  | destroyed _ _ _ becomes => simp [State.conOf,becomes,absent] at con

theorem own_step (orderly : Orderly s) (step : ServerStep cfg s s') (alone : PostsAlone s s') :
    ∀ t u c d, s'.Outstanding t → s'.conOf t = some c → t ≤ u → s'.conOf u = some d → d = c := by
  intro t u c d held con later con'
  rcases outstanding_before step held with before | ⟨rest,here,leaves⟩
  · have old := orderly.sound.old (orderly.sound.known t before)
    rw [conOf_kept step old] at con
    by_cases made : u < s.made
    · rw [conOf_kept step made] at con'
      exact orderly.own t u c d before con later con'
    · obtain rfl := conOf_new orderly.sound step (by omega) con'
      exact Option.some.inj ((alone.constructed d con' t before).symm.trans con)
  · -- The task that was posted is the latest.
    obtain ⟨last,_,_⟩ := orderly.sound.newest t rest here
    have same : s'.made = s.made := by
      cases server_calls step with
      | kept _ _ _ sameLoop => rw [sameLoop t rest here] at leaves; cases leaves
      | posted _ _ _ after => rw [after]
    have bound : u < s'.made := by
      by_contra new
      simp [State.conOf,(sound_step orderly.sound step).fresh u (by omega)] at con'
    obtain rfl : u = t := by omega
    exact Option.some.inj (con'.symm.trans con)

theorem mine_step (orderly : Orderly s) (step : ServerStep cfg s s') :
    ∀ c, ∀ x ∈ s'.taken c, s'.conOf x.1 = some c := by
  intro c x inside
  rcases server_taken step c with same | ⟨i,task,later,got,running,place,con,grown⟩
  · rw [same] at inside
    rw [conOf_kept step (orderly.sound.readers c x inside)]
    exact orderly.mine c x inside
  · rw [grown,List.mem_append,List.mem_map] at inside
    rcases inside with old | ⟨_,_,rfl⟩
    · rw [conOf_kept step (orderly.sound.readers c x old)]
      exact orderly.mine c x old
    · have made := orderly.sound.known task ⟨_,running⟩
      obtain ⟨o,object⟩ := Option.ne_none_iff_exists'.mp made
      have known : s.conOf task = some o.con := by simp [State.conOf,object]
      obtain rfl := orderly.own task later _ c ⟨_,running⟩ known place con
      rw [conOf_kept step (orderly.sound.old made),known]

theorem orderly_step (orderly : Orderly s) (step : ServerStep cfg s s') (alone : PostsAlone s s') :
    Orderly s' := by
  have sound := sound_step orderly.sound step
  refine ⟨sound,single_step orderly step alone,own_step orderly step alone,mine_step orderly step,
    fun c => ?_,fun t c held con x inside => ?_⟩
  · rcases server_taken step c with same | ⟨i,task,later,got,running,place,con,grown⟩
    · rw [same]
      exact orderly.ordered c
    · rw [grown]
      refine List.pairwise_append.mpr ⟨orderly.ordered c,?_,fun x old y new => ?_⟩
      · exact List.pairwise_map.mpr (List.pairwise_of_forall fun _ _ => le_rfl)
      · obtain ⟨_,_,rfl⟩ := List.mem_map.mp new
        obtain ⟨o,object⟩ := Option.ne_none_iff_exists'.mp (orderly.sound.known task ⟨_,running⟩)
        have known : s.conOf task = some o.con := by simp [State.conOf,object]
        obtain rfl := orderly.own task later _ c ⟨_,running⟩ known place con
        exact orderly.latest task _ ⟨_,running⟩ known x old
  · rcases outstanding_before step held with before | ⟨rest,here,leaves⟩
    · have old := orderly.sound.old (orderly.sound.known t before)
      rw [conOf_kept step old] at con
      rcases server_taken step c with same | ⟨i,task,later,got,running,_,_,grown⟩
      · exact orderly.latest t c before con x (same ▸ inside)
      · rw [grown,List.mem_append,List.mem_map] at inside
        rcases inside with older | ⟨_,_,rfl⟩
        · exact orderly.latest t c before con x older
        · -- The reader is the one unfinished call.
          obtain ⟨p,held⟩ := before
          obtain rfl := orderly.single p _ t task held running
          exact (Option.some.inj (running.symm.trans held)).le
    · have last := (orderly.sound.newest t rest here).1
      have bound := sound.readers c x inside
      have same : s'.made = s.made := by
        cases server_calls step with
        | kept _ _ _ sameLoop => rw [sameLoop t rest here] at leaves; cases leaves
        | posted _ _ _ after => rw [after]
      omega

/-- Where the loop constructs an object, the calls stay where they are. -/
theorem calls_constructed {c : Nat} (sound : Sound s) (step : ServerStep cfg s s')
    (con : s'.conOf s.made = some c) : s'.que = s.que ∧ s'.threads = s.threads := by
  have absent := sound.fresh s.made le_rfl
  have stays (same : s'.objects = s.objects) : s'.que = s.que ∧ s'.threads = s.threads := by
    simp [State.conOf,same,absent] at con
  cases step with
  | client _ step => cases step <;> exact ⟨rfl,rfl⟩
  | thread _ step => cases step <;> exact stays rfl
  | loop _ step =>
    cases step with
    | push => exact stays rfl
    | epollWait | roundOver | accept | acceptFails | unknown | closed | onMessage | leave => exact ⟨rfl,rfl⟩

theorem posts_alone_of_exclusive (sound : Sound s) (step : ServerStep cfg s s') (after : Exclusive s') :
    PostsAlone s s' := by
  constructor
  · intro c con u ⟨p,held⟩
    obtain ⟨que,threads⟩ := calls_constructed sound step con
    have old := sound.old (sound.known u ⟨p,held⟩)
    obtain ⟨o,object⟩ := Option.ne_none_iff_exists'.mp (sound.known u ⟨p,held⟩)
    have known : s.conOf u = some o.con := by simp [State.conOf,object]
    have stays : s'.Outstanding u := ⟨p,by cases p <;> simpa [State.callAt,que,threads] using held⟩
    obtain rfl := after.own u s.made _ c stays (by rw [conOf_kept step old,known]) old.le con
    exact known
  · intro task rest here leaves u ⟨p,held⟩
    cases server_calls step with
    | kept _ _ _ sameLoop => rw [sameLoop task rest here] at leaves; cases leaves
    | posted posted _ here' becomes =>
      subst becomes
      obtain ⟨rfl,rfl⟩ := Loop.push.inj (here.symm.trans here')
      obtain ⟨last,made,_⟩ := sound.newest task rest here
      obtain ⟨o,object⟩ := Option.ne_none_iff_exists'.mp made
      obtain ⟨o',object'⟩ := Option.ne_none_iff_exists'.mp (sound.known u ⟨p,held⟩)
      have old := sound.old (sound.known u ⟨p,held⟩)
      have con : s.conOf task = some o.con := by simp [State.conOf,object]
      have con' : s.conOf u = some o'.con := by simp [State.conOf,object']
      have here : State.callAt {s with que := s.que ++ [task], loop := .leave task rest}
          (.queued s.que.length) = some task := by simp [State.callAt]
      -- The object of the new call stands where that of the old one stood.
      have same : o.con = o'.con := after.own u task _ _ ⟨p,callAt_kept held⟩ con' (by omega) con
      obtain rfl := after.single p _ u task o.con (callAt_kept held) here (con'.trans (by rw [same])) con
      simp [State.callAt] at held

end steps

/-- Along every run of the server: the readers of each connection exclude each other exactly
when calls are posted alone. -/
theorem exclusive_iff {cfg : Config} {store : Store} {run : List State}
    (steps : (State.start store :: run).IsChain (ServerStep cfg)) :
    (∀ s ∈ State.start store :: run, Exclusive s) ↔
      (State.start store :: run).IsChain PostsAlone := by
  constructor
  · intro exclusive
    have sound := always_of_kept steps (sound_start store) fun _ _ sound step => sound_step sound step
    exact steps.imp_of_mem_imp fun s s' inside inside' step =>
      posts_alone_of_exclusive (sound s inside) step (exclusive s' inside')
  · intro alone s inside
    exact exclusive_of_orderly (always_of_guarded steps alone (orderly_start store)
      (fun _ _ orderly step alone => orderly_step orderly step alone) s inside)

theorem sample_exclusive_iff : ∃ run, sampleConnected.posted 0 ∈ State.start sampleStore :: run ∧
    ((∀ s ∈ State.start sampleStore :: run, Exclusive s) ↔
      (State.start sampleStore :: run).IsChain PostsAlone) := by
  have unread : (sampleConnected.conns 0).input ≠ [] := by decide
  obtain ⟨run,steps,inside⟩ := exists_run (sample_connected.trans
    (can_post rfl rfl (sample_readable rfl rfl unread) unread (by decide)))
  exact ⟨run,inside,exclusive_iff steps⟩

def sampleTwice : State := (((sampleConnected.posted 0).posted 0).popped 0 0 sampleConfig.md5).popped 1 1
  sampleConfig.md5

theorem sample_twice :
    Relation.ReflTransGen (ServerStep sampleConfig) (State.start sampleStore) sampleTwice := by
  have unread : (sampleConnected.conns 0).input ≠ [] := by decide
  apply sample_connected.trans
  apply (can_post rfl rfl (sample_readable rfl rfl unread) unread (by decide)).trans
  refine (@can_post _ (sampleConnected.posted 0) 0 rfl rfl (sample_readable rfl rfl unread) unread
    (by decide)).trans ?_
  refine .head (@can_pop _ _ 0 0 [1] rfl (by decide) rfl rfl) (.single ?_)
  exact @can_pop _ _ 1 1 [] rfl (by decide) rfl rfl

/-- Each of the two calls takes a byte of the one record. -/
theorem two_readers : ¬ ∀ (cfg : Config) (store : Store) (run : List State),
    (State.start store :: run).IsChain (ServerStep cfg) →
    ∀ s ∈ State.start store :: run, Exclusive s := by
  intro exclusive
  obtain ⟨rest,input⟩ : ∃ rest, (sampleTwice.conns 0).input = 115 :: 49 :: rest := ⟨_,rfl⟩
  obtain ⟨job,first⟩ := @can_take sampleConfig sampleTwice 0 0 0 0 .destroyed 115 _ rfl rfl le_rfl rfl input
  obtain ⟨job',second⟩ := @can_take sampleConfig (sampleTwice.took 0 0 0 115 (49 :: rest) job) 1 1 1 0
    .destroyed 49 rest rfl rfl le_rfl rfl rfl
  obtain ⟨run,steps,inside⟩ := exists_run (sample_twice.trans (first.trans second))
  have split := (exclusive _ _ run steps _ inside).unsplit 0 0 ⟨.running 0,rfl⟩ rfl (0,115) (1,49)
    (List.Sublist.refl _) rfl
  exact absurd split (by decide)

end FilediskServer.Readers
