import FilediskServer.Library.Bytes

/-! SQL text as MySQL reads it, byte by byte: words, literals in single quotes and symbols. A
doubled quote and an escape stand for one byte of a literal, and a quote by itself ends it. -/
namespace SqlText
open Bytes

inductive Token
  | word (b : Bytes)
  | text (value : Bytes)
  | symbol (b : UInt8)
  deriving DecidableEq

def quote : UInt8 := 39

def backslash : UInt8 := 92

/-- What a byte behind a backslash stands for. `\%` and `\_` are kept for patterns. -/
def escaped (b : UInt8) : Bytes :=
  if b = 48 then [0]
  else if b = 98 then [8]
  else if b = 110 then [10]
  else if b = 114 then [13]
  else if b = 116 then [9]
  else if b = 90 then [26]
  else if b = 37 ∨ b = 95 then [backslash,b]
  else [b]

def isWordByte (b : UInt8) : Bool := isDigit b || (65 ≤ b && b ≤ 90) || (97 ≤ b && b ≤ 122) || b == 95

inductive Mode
  | between
  | word (read : Bytes)
  | literal (read : Bytes)
  | escape (read : Bytes)
  /-- behind a quote that ends the literal, unless another follows -/
  | quoted (read : Bytes)
  deriving DecidableEq

/-- A byte that belongs to no token yet. -/
def first (b : UInt8) : List Token × Mode :=
  if b = quote then ([],.literal [])
  else if isWordByte b then ([],.word [b])
  else if isSpace b then ([],.between)
  else ([.symbol b],.between)

def next : Mode → UInt8 → List Token × Mode
  | .between, b => first b
  | .word read, b =>
    if isWordByte b then ([],.word (read ++ [b])) else (.word read :: (first b).1,(first b).2)
  | .literal read, b =>
    if b = quote then ([],.quoted read)
    else if b = backslash then ([],.escape read)
    else ([],.literal (read ++ [b]))
  | .escape read, b => ([],.literal (read ++ escaped b))
  | .quoted read, b =>
    if b = quote then ([],.literal (read ++ [quote])) else (.text read :: (first b).1,(first b).2)

def run : Mode → Bytes → List Token × Mode
  | m, [] => ([],m)
  | m, b :: rest => ((next m b).1 ++ (run (next m b).2 rest).1,(run (next m b).2 rest).2)

/-- What the end of the text closes; a literal is not. -/
def finish : Mode → Option (List Token)
  | .between => some []
  | .word read => some [.word read]
  | .quoted read => some [.text read]
  | .literal _ | .escape _ => none

def tokensFrom (m : Mode) (b : Bytes) : Option (List Token) := (finish (run m b).2).map ((run m b).1 ++ ·)

def tokens (b : Bytes) : Option (List Token) := tokensFrom .between b

/-- A literal carries the bytes as they are: no quote, and a backslash only before `%` and `_`. -/
def carried : Bytes → Bool
  | [] => true
  | [b] => b != quote && b != backslash
  | b :: c :: rest =>
    if b = backslash then (c == 37 || c == 95) && carried rest else b != quote && carried (c :: rest)

theorem run_append (m : Mode) (a b : Bytes) : run m (a ++ b) =
    ((run m a).1 ++ (run (run m a).2 b).1,(run (run m a).2 b).2) := by
  induction a generalizing m with
  | nil => rfl
  | cons x a ih =>
    rw [List.cons_append,run,run,ih]
    simp only [List.append_assoc]

theorem tokensFrom_append (m : Mode) (a b : Bytes) : tokensFrom m (a ++ b) =
    (tokensFrom (run m a).2 b).map ((run m a).1 ++ ·) := by
  unfold tokensFrom
  rw [run_append,Option.map_map]
  congr 1
  funext ts
  exact List.append_assoc ..

theorem tokensFrom_through {m m' : Mode} {a : Bytes} {ts : List Token} (through : run m a = (ts,m')) (b : Bytes) :
    tokensFrom m (a ++ b) = (tokensFrom m' b).map (ts ++ ·) := by rw [tokensFrom_append,through]

theorem run_quiet {m m' : Mode} {x : UInt8} (quiet : next m x = ([],m')) (b : Bytes) :
    run m (x :: b) = run m' b := by
  rw [run,quiet]
  rfl

theorem next_quote (read : Bytes) : next (.literal read) quote = ([],.quoted read) := rfl

theorem next_backslash (read : Bytes) : next (.literal read) backslash = ([],.escape read) := rfl

theorem next_literal {x : UInt8} (ends : x ≠ quote) (escapes : x ≠ backslash) (read : Bytes) :
    next (.literal read) x = ([],.literal (read ++ [x])) := by
  rw [next,if_neg ends,if_neg escapes]

theorem map_append_eq_some {ts ts' : List Token} {x : Option (List Token)} :
    x.map (ts ++ ·) = some (ts ++ ts') ↔ x = some ts' := by
  constructor
  · intro same
    obtain ⟨us,rfl,joined⟩ := Option.map_eq_some_iff.mp same
    rw [List.append_cancel_left joined]
  · rintro rfl
    rfl

/-- The end of the text closes one token at most. -/
theorem run_of_tokensFrom {m : Mode} {b : Bytes} {t t' : Token} {ts : List Token}
    (read : tokensFrom m b = some (t :: t' :: ts)) : ∃ after, (run m b).1 = t :: after := by
  obtain ⟨closing,finished,shape⟩ := Option.map_eq_some_iff.mp read
  cases early : (run m b).1 with
  | nil =>
    rw [early,List.nil_append] at shape
    subst shape
    cases ended : (run m b).2 <;> (rw [ended] at finished; cases finished)
  | cons first after =>
    rw [early] at shape
    obtain ⟨same,_⟩ := List.cons.inj shape
    exact ⟨after,by rw [same]⟩

theorem carried_of_free {b : Bytes} (quotes : quote ∉ b) (escapes : backslash ∉ b) : carried b = true := by
  induction b using carried.induct with
  | case1 => rfl
  | case2 b =>
    simp only [List.mem_singleton] at quotes escapes
    simp [carried,Ne.symm quotes,Ne.symm escapes]
  | case3 b rest ih => exact absurd List.mem_cons_self escapes
  | case4 b c rest other ih =>
    have next := ih (fun inside => quotes (List.mem_cons_of_mem _ inside))
      fun inside => escapes (List.mem_cons_of_mem _ inside)
    have fresh : b ≠ quote := fun same => quotes (same ▸ List.mem_cons_self)
    simp [carried,other,fresh,next]

theorem run_carried {b : Bytes} (plain : carried b = true) (read : Bytes) :
    run (.literal read) b = ([],.literal (read ++ b)) := by
  induction b using carried.induct generalizing read with
  | case1 => simp [run]
  | case2 b =>
    simp only [carried,Bool.and_eq_true,bne_iff_ne] at plain
    exact run_quiet (next_literal plain.1 plain.2 read) []
  | case3 c after ih =>
    simp only [carried,if_true,Bool.and_eq_true,Bool.or_eq_true,beq_iff_eq] at plain
    have kept : escaped c = [backslash,c] := by rcases plain.1 with rfl | rfl <;> rfl
    rw [run_quiet (next_backslash read),run_quiet rfl,kept,ih plain.2]
    simp
  | case4 b c after other ih =>
    simp only [carried,other,if_false,Bool.and_eq_true,bne_iff_ne] at plain
    rw [run_quiet (next_literal plain.1 other read),ih plain.2]
    simp

theorem run_word {b : Bytes} (word : ∀ x ∈ b, isWordByte x = true) (read : Bytes) :
    run (.word read) b = ([],.word (read ++ b)) := by
  induction b generalizing read with
  | nil => simp [run]
  | cons x b ih =>
    obtain ⟨head,tail⟩ := List.forall_mem_cons.mp word
    rw [run_quiet (by rw [next,if_pos head]),ih tail]
    simp

theorem first_word {x : UInt8} (word : isWordByte x = true) : first x = ([],.word [x]) := by
  have other : x ≠ quote := by
    rintro rfl
    exact absurd word (by decide)
  rw [first,if_neg other,if_pos word]

theorem isWordByte_of_isDigit {x : UInt8} (digit : isDigit x = true) : isWordByte x = true := by
  simp [isWordByte,digit]

/-- A word that nothing comes before. -/
theorem run_between_word {b : Bytes} (some : b ≠ []) (word : ∀ x ∈ b, isWordByte x = true) :
    run .between b = ([],.word b) := by
  obtain ⟨x,after,rfl⟩ := List.exists_cons_of_ne_nil some
  obtain ⟨head,tail⟩ := List.forall_mem_cons.mp word
  rw [run_quiet (show next .between x = _ from first_word head),run_word tail]
  rfl

/-! What a literal can hold that has been read from some bytes. -/

def Mode.Inside : Mode → Prop
  | .literal _ | .escape _ | .quoted _ => True
  | _ => False

/-- The bytes read, and the backslash that may have to be kept. -/
def Mode.held : Mode → Nat
  | .literal read | .quoted read => read.length
  | .escape read => read.length + 1
  | _ => 0

theorem length_escaped (b : UInt8) : (escaped b).length ≤ 2 := by
  unfold escaped
  split_ifs <;> simp

/-- Inside a literal each byte adds one at most, and the quote that ends it adds none. -/
theorem run_inside {m : Mode} (inside : m.Inside) (b : Bytes) :
    ((run m b).1 = [] ∧ (run m b).2.Inside ∧ (run m b).2.held ≤ m.held + b.length) ∨
      ∃ v after, (run m b).1 = .text v :: after ∧ v.length < m.held + b.length := by
  induction b generalizing m with
  | nil => exact .inl ⟨rfl,inside,le_rfl⟩
  | cons x b ih =>
    -- A byte that ends no token leads to a mode from which the rest is read.
    have onward {m' : Mode} (quiet : next m x = ([],m')) (inside' : m'.Inside) (grows : m'.held ≤ m.held + 1) :
        ((run m (x :: b)).1 = [] ∧ (run m (x :: b)).2.Inside ∧
          (run m (x :: b)).2.held ≤ m.held + (x :: b).length) ∨
        ∃ v after, (run m (x :: b)).1 = .text v :: after ∧ v.length < m.held + (x :: b).length := by
      rw [run_quiet quiet,List.length_cons]
      rcases ih inside' with ⟨none,stays,bound⟩ | ⟨v,after,emitted,bound⟩
      · exact .inl ⟨none,stays,by omega⟩
      · exact .inr ⟨v,after,emitted,by omega⟩
    cases m with
    | between | word => exact inside.elim
    | literal read =>
      by_cases ends : x = quote
      · subst ends
        exact onward (next_quote read) trivial (by simp [Mode.held])
      by_cases escapes : x = backslash
      · subst escapes
        exact onward (next_backslash read) trivial le_rfl
      · exact onward (next_literal ends escapes read) trivial (by simp [Mode.held])
    | escape read =>
      have two := length_escaped x
      refine onward rfl trivial ?_
      simp only [Mode.held,List.length_append]
      omega
    | quoted read =>
      by_cases doubled : x = quote
      · exact onward (if_pos doubled) trivial (by simp [Mode.held])
      · refine .inr ⟨read,_,by rw [run,next,if_neg doubled,List.cons_append],?_⟩
        simp [Mode.held]

/-- Bytes that a literal holds in full are held as they are. -/
theorem carried_of_run {read b held : Bytes} (whole : run (.literal read) b = ([],.literal held))
    (length : held.length = read.length + b.length) : carried b = true ∧ held = read ++ b := by
  -- From a mode that holds too little nothing is made up.
  have short {m : Mode} {b : Bytes} (reaches : run m b = ([],.literal held)) (inside : m.Inside) :
      held.length ≤ m.held + b.length := by
    rcases run_inside inside b with ⟨_,_,bound⟩ | ⟨v,after,emitted,_⟩
    · rw [reaches] at bound
      exact bound
    · rw [reaches] at emitted
      cases emitted
  induction b using carried.induct generalizing read with
  | case1 => exact ⟨rfl,by simpa [run] using whole.symm⟩
  | case2 b =>
    by_cases ends : b = quote
    · subst ends
      cases whole
    by_cases escapes : b = backslash
    · subst escapes
      cases whole
    · rw [run_quiet (next_literal ends escapes read)] at whole
      cases whole
      exact ⟨by simp [carried,ends,escapes],rfl⟩
  | case3 c after ih =>
    rw [run_quiet (next_backslash read),run_quiet rfl] at whole
    by_cases kept : c = 37 ∨ c = 95
    · have pair : escaped c = [backslash,c] := by rcases kept with rfl | rfl <;> rfl
      rw [pair] at whole
      obtain ⟨plain,same⟩ := ih whole (by simp [length]; omega)
      refine ⟨?_,by simp [same]⟩
      simpa [carried,kept] using plain
    · have one : (escaped c).length ≤ 1 := by
        unfold escaped
        split_ifs <;> simp
      have bound := short whole trivial
      simp only [Mode.held,List.length_append,List.length_cons] at bound length
      omega
  | case4 b c after other ih =>
    by_cases ends : b = quote
    · subst ends
      rw [run_quiet (next_quote read)] at whole
      have bound := short whole trivial
      simp only [Mode.held,List.length_cons] at bound length
      omega
    · rw [run_quiet (next_literal ends other read)] at whole
      obtain ⟨plain,same⟩ := ih whole (by simp at length ⊢; omega)
      refine ⟨?_,by simp [same]⟩
      simp [carried,other,ends,plain]

theorem first_mode (c : UInt8) : (∀ read, (first c).2 ≠ .quoted read) ∧ ∀ read, (first c).2 ≠ .escape read := by
  unfold first
  split_ifs <;> exact ⟨nofun,nofun⟩

/-- Only a quote leads behind a quote, and only a backslash behind a backslash. -/
theorem next_mode {c : UInt8} (ends : c ≠ quote) (escapes : c ≠ backslash) (m : Mode) :
    (∀ read, (next m c).2 ≠ .quoted read) ∧ ∀ read, (next m c).2 ≠ .escape read := by
  cases m with
  | between => exact first_mode c
  | word =>
    rw [next]
    split_ifs
    · exact ⟨nofun,nofun⟩
    · exact first_mode c
  | literal read =>
    rw [next_literal ends escapes]
    exact ⟨nofun,nofun⟩
  | escape => exact ⟨nofun,nofun⟩
  | quoted =>
    rw [next,if_neg ends]
    exact first_mode c

/-- Bytes between quotes that are read back as they are can be carried, where the bytes behind
them end a literal that runs on, and add `u` to it, or do not end it. -/
theorem carried_of_text_past {b t u front : Bytes} {c x : UInt8} {after : List Token} (ends : c ≠ quote)
    (escapes : c ≠ backslash) (last : c :: u = front ++ [x]) (lastEnds : x ≠ quote)
    (lastEscapes : x ≠ backslash)
    (closes : ∀ read v after, (run (.literal read) t).1 = .text v :: after → v = read ++ u)
    (back : (run (.literal []) (b ++ quote :: c :: t)).1 = .text b :: after) : carried b = true := by
  have started := run_inside (show (Mode.literal []).Inside from trivial) b
  rw [run_append] at back
  cases through : run (.literal []) b with
  | mk ts m =>
    rw [through] at back started
    rcases started with ⟨none,inside,bound⟩ | ⟨v,rest,emitted,bound⟩
    · dsimp only at none inside bound back
      subst none
      -- A literal that runs on has `x` at its end, which `b` then ends with.
      have runsOn {read : Bytes} (back : (run (.literal (read ++ [quote])) (c :: t)).1 = .text b :: after) :
          m = (next (run (.literal []) (read ++ [quote] ++ front)).2 x).2 := by
        rw [run_quiet (next_literal ends escapes _)] at back
        have same := closes _ _ _ back
        rw [List.append_assoc _ [c],List.singleton_append,last,← List.append_assoc] at same
        have modes := congrArg Prod.snd through
        rw [same,run_append] at modes
        exact modes.symm
      cases m with
      | between | word => exact inside.elim
      | literal read =>
        rw [List.nil_append,run_quiet (next_quote read),run,next,if_neg ends] at back
        obtain ⟨same,_⟩ := List.cons.inj back
        cases same
        exact (carried_of_run through (by simp)).1
      | quoted read =>
        rw [List.nil_append,run_quiet rfl] at back
        exact absurd (runsOn back).symm ((next_mode lastEnds lastEscapes _).1 read)
      | escape read =>
        rw [List.nil_append,run_quiet rfl] at back
        exact absurd (runsOn back).symm ((next_mode lastEnds lastEscapes _).2 read)
    · dsimp only at emitted bound back
      rw [emitted] at back
      obtain ⟨same,_⟩ := List.cons.inj back
      cases same
      exact absurd bound (by simp [Mode.held])

/-- The same where a literal that runs on ends at once. -/
theorem carried_of_text {b t : Bytes} {c : UInt8} {after : List Token} (ends : c ≠ quote)
    (escapes : c ≠ backslash)
    (closes : ∀ read v after, (run (.literal read) t).1 = .text v :: after → v = read)
    (back : (run (.literal []) (b ++ quote :: c :: t)).1 = .text b :: after) : carried b = true :=
  @carried_of_text_past b t [] [] c c after ends escapes rfl ends escapes
    (fun read v after closed => (closes read v after closed).trans (List.append_nil read).symm) back

/-! Texts without quotes. -/

def Mode.Open : Mode → Prop
  | .literal _ | .escape _ => True
  | _ => False

def Mode.Outside : Mode → Prop
  | .between | .word _ => True
  | _ => False

theorem first_outside {x : UInt8} (plain : x ≠ quote) :
    (first x).2.Outside ∧ ∀ v, .text v ∉ (first x).1 := by
  rw [first,if_neg plain]
  split_ifs <;> exact ⟨trivial,by simp⟩

/-- A literal that is open stays so. -/
theorem run_open {b : Bytes} (plain : quote ∉ b) {m : Mode} (isOpen : m.Open) :
    (run m b).1 = [] ∧ (run m b).2.Open := by
  induction b generalizing m with
  | nil => exact ⟨rfl,isOpen⟩
  | cons x b ih =>
    obtain ⟨head,tail⟩ := not_or.mp (mt List.mem_cons.mpr plain)
    have onward {m' : Mode} (quiet : next m x = ([],m')) (open' : m'.Open) :
        (run m (x :: b)).1 = [] ∧ (run m (x :: b)).2.Open := by
      rw [run_quiet quiet]
      exact ih tail open'
    cases m with
    | between | word | quoted => exact isOpen.elim
    | literal read =>
      by_cases escapes : x = backslash
      · subst escapes
        exact onward (next_backslash read) trivial
      · exact onward (next_literal (Ne.symm head) escapes read) trivial
    | escape read => exact onward rfl trivial

theorem tokensFrom_open {b : Bytes} (plain : quote ∉ b) {m : Mode} (isOpen : m.Open) :
    tokensFrom m b = none := by
  have stays := (run_open plain isOpen).2
  unfold tokensFrom
  cases ended : (run m b).2 with
  | literal | escape => rfl
  | between | word | quoted =>
    rw [ended] at stays
    exact stays.elim

theorem run_outside {b : Bytes} (plain : quote ∉ b) {m : Mode} (outside : m.Outside) :
    (run m b).2.Outside ∧ ∀ v, .text v ∉ (run m b).1 := by
  induction b generalizing m with
  | nil => exact ⟨outside,fun _ => List.not_mem_nil⟩
  | cons x b ih =>
    obtain ⟨head,tail⟩ := not_or.mp (mt List.mem_cons.mpr plain)
    have begins := first_outside (Ne.symm head)
    have step : (next m x).2.Outside ∧ ∀ v, .text v ∉ (next m x).1 := by
      cases m with
      | literal | escape | quoted => exact outside.elim
      | between => exact begins
      | word read =>
        rw [next]
        split_ifs
        · exact ⟨trivial,fun _ => List.not_mem_nil⟩
        · refine ⟨begins.1,fun v inside => ?_⟩
          rcases List.mem_cons.mp inside with same | later
          · cases same
          · exact begins.2 v later
    obtain ⟨stays,none⟩ := ih tail step.1
    refine ⟨stays,fun v inside => ?_⟩
    rcases List.mem_append.mp inside with now | later
    · exact step.2 v now
    · exact none v later

theorem tokensFrom_outside {b : Bytes} (plain : quote ∉ b) {m : Mode} {ts : List Token}
    (read : tokensFrom m b = some ts) (outside : m.Outside) (v : Bytes) : .text v ∉ ts := by
  obtain ⟨stays,none⟩ := run_outside plain outside
  obtain ⟨closing,finished,rfl⟩ := Option.map_eq_some_iff.mp read
  intro inside
  rcases List.mem_append.mp inside with early | late
  · exact none v early
  · cases ended : (run m b).2 with
    | literal | escape | quoted =>
      rw [ended] at stays
      exact stays
    | between =>
      rw [ended] at finished
      cases finished
      cases late
    | word w =>
      rw [ended] at finished
      cases finished
      cases List.mem_singleton.mp late

/-! The token that comes first. -/

theorem run_word_first (read b : Bytes) : (∃ w, run (.word read) b = ([],.word w)) ∨
    ∃ w after, (run (.word read) b).1 = .word w :: after := by
  induction b generalizing read with
  | nil => exact .inl ⟨read,rfl⟩
  | cons x b ih =>
    by_cases word : isWordByte x = true
    · rw [run_quiet (show next (.word read) x = _ from if_pos word)]
      exact ih _
    · exact .inr ⟨read,_,by rw [run,next,if_neg word,List.cons_append]⟩

/-- A literal that comes first is shorter than what it was read from. -/
theorem run_between_first (b : Bytes) :
    ((run .between b).1 = [] ∧ ((run .between b).2.Inside → (run .between b).2.held < b.length)) ∨
      ∃ t after, (run .between b).1 = t :: after ∧ ∀ v, t = .text v → v.length < b.length := by
  induction b with
  | nil => exact .inl ⟨rfl,False.elim⟩
  | cons x b ih =>
    by_cases opens : x = quote
    · subst opens
      rw [run_quiet (show next .between quote = ([],.literal []) from rfl),List.length_cons]
      rcases run_inside (show (Mode.literal []).Inside from trivial) b with
        ⟨none,_,bound⟩ | ⟨v,after,emitted,bound⟩ <;>
        rw [show (Mode.literal []).held = 0 from rfl] at bound
      · exact .inl ⟨none,fun _ => by omega⟩
      · refine .inr ⟨_,after,emitted,fun v' same => ?_⟩
        cases same
        omega
    by_cases word : isWordByte x = true
    · rw [run_quiet (show next .between x = _ from first_word word)]
      rcases run_word_first [x] b with ⟨w,quiet⟩ | ⟨w,after,emitted⟩
      · rw [quiet]
        exact .inl ⟨rfl,False.elim⟩
      · exact .inr ⟨_,after,emitted,nofun⟩
    by_cases space : isSpace x = true
    · rw [run_quiet (show next .between x = ([],.between) by simp [next,first,opens,word,space]),
        List.length_cons]
      rcases ih with ⟨none,bound⟩ | ⟨t,after,emitted,bound⟩
      · exact .inl ⟨none,fun inside => (bound inside).trans (Nat.lt_succ_self _)⟩
      · exact .inr ⟨t,after,emitted,fun v same => (bound v same).trans (Nat.lt_succ_self _)⟩
    · refine .inr ⟨.symbol x,_,by simp only [run,next,first,opens,word,space]; rfl,nofun⟩

theorem text_shorter {b t v : Bytes} {after : List Token} (plain : quote ∉ t)
    (read : tokensFrom .between (b ++ t) = some (.text v :: after)) : v.length < b.length := by
  rw [tokensFrom_append] at read
  obtain ⟨ts,later,shape⟩ := Option.map_eq_some_iff.mp read
  rcases run_between_first b with ⟨none,bound⟩ | ⟨token,rest,emitted,bound⟩
  · rw [none,List.nil_append] at shape
    subst shape
    cases ended : (run .between b).2 with
    | between | word =>
      rw [ended] at later
      exact absurd List.mem_cons_self (tokensFrom_outside plain later trivial v)
    | literal | escape =>
      rw [ended,tokensFrom_open plain] at later
      · cases later
      · trivial
    | quoted held =>
      rw [ended] at later bound
      have closed : ∃ after, tokensFrom (.quoted held) t = some (.text held :: after) ∨
          tokensFrom (.quoted held) t = Option.none := by
        cases t with
        | nil => exact ⟨[],.inl rfl⟩
        | cons x t =>
          have other : x ≠ quote := fun same => plain (same ▸ List.mem_cons_self)
          unfold tokensFrom
          rw [run,next,if_neg other]
          cases finish (run (first x).2 t).2 with
          | none => exact ⟨[],.inr rfl⟩
          | some closing => exact ⟨_,.inl rfl⟩
      obtain ⟨rest,closed | unclosed⟩ := closed
      · obtain ⟨same,_⟩ := List.cons.inj (Option.some.inj (later.symm.trans closed))
        cases same
        exact bound trivial
      · rw [unclosed] at later
        cases later
  · rw [emitted] at shape
    obtain ⟨same,_⟩ := List.cons.inj shape
    exact bound v same

end SqlText
