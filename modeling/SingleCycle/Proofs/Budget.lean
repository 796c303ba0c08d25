import SingleCycle.Proofs.Pacing

/-!
# Sessions keep to their budget

A session goes where its keys take it, and every key that does something is a run of its own under a
limit of its own. All in all these runs are steps of the core from which the session started, and
they execute no more instructions than the session may.
-/

namespace SingleCycle

namespace Simulator

variable {c : Core} {pace : Pace} {limit : Int} {bound : Nat} {session other : Session}
  {keys : List Key} {key : Key}

/-! ## Keys -/

/-- The limit of the run that a key asks for. -/
def Key.quota? (limit : Int) (executed : Nat) : Key → Option Int
  | .step => some 1
  | .run => some (left limit executed)
  | .quit => none
  | .other => none

theorem wantsKey_iff : wantsKey limit session = true ↔ session.ending = .finished ∧
    session.core.halted = false ∧ limitReached limit session.executed = false := by
  simp [wantsKey, and_assoc]

/-- A limit that is not reached leaves something. -/
theorem lt_of_not_reached {executed : Nat} (hlimit : 0 < limit)
    (h : limitReached limit executed = false) : executed < limit := by
  simp [limitReached] at h
  omega

/-- A key asks for no more than what the session may still execute. -/
theorem Key.quota_le {executed : Nat} {quota : Int} (hlimit : 0 ≤ limit)
    (hopen : limitReached limit executed = false) (h : key.quota? limit executed = some quota) :
    0 ≤ quota ∧ (0 < limit → 0 < quota ∧ executed + quota ≤ limit) := by
  have hleft := fun hpositive => lt_of_not_reached hpositive hopen
  cases key with
  | step =>
    obtain rfl : 1 = quota := Option.some.inj h
    omega
  | run =>
    obtain rfl : left limit executed = quota := Option.some.inj h
    unfold left
    split <;> omega
  | quit => cases h
  | other => cases h

theorem press_of_no_quota (h : key.quota? limit session.executed = none) :
    press pace limit bound session key = session := by
  cases key with
  | step => cases h
  | run => cases h
  | quit => rfl
  | other => rfl

namespace Session.Like

theorem refl (session : Session) : session.Like session := ⟨rfl, rfl, rfl⟩

theorem symm (h : session.Like other) : other.Like session :=
  ⟨h.core.symm, h.executed.symm, h.ending.symm⟩

theorem trans {third : Session} (h : session.Like other) (h' : other.Like third) :
    session.Like third :=
  ⟨h.core.trans h'.core, h.executed.trans h'.executed, h.ending.trans h'.ending⟩

theorem followedBy {after after' : Session} (h : session.executed = other.executed)
    (h' : after.Like after') : (session.followedBy after).Like (other.followedBy after') := by
  refine ⟨h'.core, ?_, h'.ending⟩
  simp [h, h'.executed]

theorem wantsKey_eq (h : session.Like other) : wantsKey limit session = wantsKey limit other := by
  unfold wantsKey
  rw [h.core, h.executed, h.ending]

end Session.Like

/-- A key that does something runs the core. -/
theorem like_press {quota : Int} (hlimit : 0 ≤ limit)
    (hopen : limitReached limit session.executed = false)
    (h : key.quota? limit session.executed = some quota) (pace : Pace) (bound : Nat) :
    (press pace limit bound session key).Like
      (session.followedBy (ofRun (session.core.run ⟨quota, []⟩ pace.trace bound))) := by
  have hquota := (Key.quota_le hlimit hopen h).1
  cases key with
  | step =>
    obtain rfl : 1 = quota := Option.some.inj h
    exact .followedBy rfl (like_run hquota bound)
  | run =>
    obtain rfl : left limit session.executed = quota := Option.some.inj h
    refine .followedBy rfl ?_
    by_cases hpausing : pace.pausing = true
    · rw [if_pos hpausing]
      exact like_run hquota bound
    · rw [if_neg hpausing]
      exact .refl _
  | quit => cases h
  | other => cases h

/-! ## The budget -/

/-- A session has taken steps of the core from which it started, and has executed no more
instructions than it may. -/
structure Session.WithinBudget (session : Session) (c : Core) (trace : Option Bool) (limit : Int) :
    Prop where
  taken : ∃ n, session.core = c.after trace n ∧ session.executed = c.executedIn trace n
  within : 0 < limit → session.executed ≤ limit

theorem Session.WithinBudget.pc (h : session.WithinBudget c pace.trace limit) (hpc : 0 ≤ c.pc) :
    0 ≤ session.core.pc := by
  obtain ⟨n, hcore, -⟩ := h.taken
  rw [hcore]
  exact Core.pc_after hpc n

/-- A key keeps a session within its budget. -/
theorem Session.WithinBudget.press (hpc : 0 ≤ c.pc) (hlimit : 0 ≤ limit)
    (h : session.WithinBudget c pace.trace limit)
    (hopen : limitReached limit session.executed = false) (bound : Nat) (key : Key) :
    (press pace limit bound session key).WithinBudget c pace.trace limit := by
  cases hquota : key.quota? limit session.executed with
  | none => rwa [press_of_no_quota hquota]
  | some quota =>
    have hlike := like_press hlimit hopen hquota pace bound
    have hpc' := h.pc hpc
    constructor
    · obtain ⟨n, hcore, hexecuted⟩ := h.taken
      obtain ⟨m, hcore', hexecuted'⟩ := Core.run_taken hpc' ⟨quota, []⟩ pace.trace bound
      refine ⟨n + m, ?_, ?_⟩
      · rw [hlike.core, Core.after_add, ← hcore]
        exact hcore'
      · rw [hlike.executed, Core.executedIn_add, ← hcore, ← hexecuted]
        exact congrArg _ hexecuted'
    · intro hpositive
      obtain ⟨hquota', hle⟩ := (Key.quota_le hlimit hopen hquota).2 hpositive
      have hrun := Core.run_within hpc' hquota' pace.trace bound
      rw [hlike.executed, Session.executed_followedBy, executed_ofRun]
      omega

/-- A run that is over leaves nothing to do. -/
theorem press_run_over (hpc : 0 ≤ session.core.pc) (hlimit : 0 ≤ limit)
    (hopen : limitReached limit session.executed = false)
    (h : (press pace limit bound session .run).ending = .finished) :
    (press pace limit bound session .run).core.halted = true ∨
      0 < limit ∧ ((press pace limit bound session .run).executed : Int) = limit := by
  have hquota : Key.quota? limit session.executed .run = some (left limit session.executed) := rfl
  have hlike := like_press hlimit hopen hquota pace bound
  rw [hlike.ending] at h
  rw [hlike.core, hlike.executed]
  rcases Core.run_over hpc h with hhalted | hreached
  · exact .inl hhalted
  · right
    rw [Session.executed_followedBy, executed_ofRun]
    obtain ⟨hne, hle⟩ : left limit session.executed ≠ 0 ∧ left limit session.executed ≤
        (session.core.run ⟨left limit session.executed, []⟩ pace.trace bound).executed := by
      simpa [limitReached] using hreached
    have hpositive : 0 < limit := by
      by_cases hzero : limit = 0
      · exact absurd (if_pos hzero) hne
      · omega
    obtain ⟨hquota', -⟩ := (Key.quota_le hlimit hopen hquota).2 hpositive
    have hwithin := Core.run_within hpc hquota' pace.trace bound
    have hleft : left limit session.executed = limit - session.executed := if_neg (by omega)
    omega

theorem wantsKey_press_run (hpc : 0 ≤ session.core.pc) (hlimit : 0 ≤ limit)
    (hopen : limitReached limit session.executed = false) :
    wantsKey limit (press pace limit bound session .run) = false := by
  by_cases hending : (press pace limit bound session .run).ending = .finished
  · rcases press_run_over hpc hlimit hopen hending with hhalted | ⟨hpositive, hexecuted⟩
    · simp [wantsKey, hhalted]
    · have hne : limit ≠ 0 := by omega
      simp [wantsKey, limitReached, hne, hexecuted]
  · simp [wantsKey, hending]

/-! ## Keys one after the other -/

/-- Where keys take a session, and the keys that it reads. -/
def followed (pace : Pace) (limit : Int) (bound : Nat) : List Key → Session → Session × List Key
  | [], session => (session, [])
  | key :: keys, session =>
    if wantsKey limit session then
      if key = .quit then (session, [key])
      else
        let later := followed pace limit bound keys (press pace limit bound session key)
        (later.1, key :: later.2)
    else (session, [])

theorem followed_of_no_key (h : wantsKey limit session = false) (keys : List Key) :
    followed pace limit bound keys session = (session, []) := by
  cases keys with
  | nil => rfl
  | cons key keys => rw [followed, h, if_neg Bool.false_ne_true]

theorem followed_quit (h : wantsKey limit session = true) (keys : List Key) :
    followed pace limit bound (.quit :: keys) session = (session, [.quit]) := by
  rw [followed, if_pos h, if_pos rfl]

theorem followed_cons (h : wantsKey limit session = true) (hquit : key ≠ .quit) (keys : List Key) :
    followed pace limit bound (key :: keys) session =
      ((followed pace limit bound keys (press pace limit bound session key)).1,
        key :: (followed pace limit bound keys (press pace limit bound session key)).2) := by
  rw [followed, if_pos h, if_neg hquit]

theorem followKeys_eq (pace : Pace) (limit : Int) (bound : Nat) (keys : List Key)
    (session : Session) (used : Nat) :
    followKeys (Simulator.press pace limit bound) limit keys session used =
      ⟨(followed pace limit bound keys session).1,
        used + (followed pace limit bound keys session).2.length⟩ := by
  induction keys generalizing session used with
  | nil => rfl
  | cons key keys ih =>
    by_cases hwants : wantsKey limit session = true
    · by_cases hquit : key = .quit
      · rw [followKeys, if_pos hwants, if_pos hquit, hquit, followed_quit hwants]
        rfl
      · rw [followKeys, if_pos hwants, if_neg hquit, ih, followed_cons hwants hquit,
          List.length_cons, Nat.add_right_comm, Nat.add_assoc]
    · rw [followKeys, if_neg hwants, followed_of_no_key (eq_false_of_ne_true hwants)]
      rfl

/-- The keys that are read are the first ones. -/
theorem followed_read (pace : Pace) (limit : Int) (bound : Nat) (keys : List Key)
    (session : Session) :
    (followed pace limit bound keys session).2 =
      keys.take (followed pace limit bound keys session).2.length := by
  induction keys generalizing session with
  | nil => rfl
  | cons key keys ih =>
    by_cases hwants : wantsKey limit session = true
    · by_cases hquit : key = .quit
      · subst hquit
        rw [followed_quit hwants]
        rfl
      · rw [followed_cons hwants hquit, List.length_cons, List.take_succ_cons, ← ih]
    · rw [followed_of_no_key (eq_false_of_ne_true hwants)]
      rfl

/-- Keys keep a session within its budget. -/
theorem Session.WithinBudget.followed (hpc : 0 ≤ c.pc) (hlimit : 0 ≤ limit) (bound : Nat)
    (keys : List Key) (h : session.WithinBudget c pace.trace limit) :
    (followed pace limit bound keys session).1.WithinBudget c pace.trace limit := by
  induction keys generalizing session with
  | nil => exact h
  | cons key keys ih =>
    by_cases hwants : wantsKey limit session = true
    · by_cases hquit : key = .quit
      · subst hquit
        rwa [followed_quit hwants]
      · rw [followed_cons hwants hquit]
        exact ih (h.press hpc hlimit (wantsKey_iff.1 hwants).2.2 bound key)
    · rwa [followed_of_no_key (eq_false_of_ne_true hwants)]

/-- No key is read behind a run, which goes on until there is nothing left to do. -/
theorem followed_run_over (hpc : 0 ≤ c.pc) (hlimit : 0 ≤ limit)
    (h : session.WithinBudget c pace.trace limit)
    (hread : .run ∈ (followed pace limit bound keys session).2)
    (hending : (followed pace limit bound keys session).1.ending = .finished) :
    (followed pace limit bound keys session).1.core.halted = true ∨
      0 < limit ∧ ((followed pace limit bound keys session).1.executed : Int) = limit := by
  induction keys generalizing session with
  | nil => cases hread
  | cons key keys ih =>
    by_cases hwants : wantsKey limit session = true
    · by_cases hquit : key = .quit
      · subst hquit
        rw [followed_quit hwants] at hread
        cases List.mem_singleton.1 hread
      · rw [followed_cons hwants hquit] at hread hending ⊢
        obtain ⟨-, -, hopen⟩ := wantsKey_iff.1 hwants
        have hpressed := h.press hpc hlimit hopen bound key
        rcases List.mem_cons.1 hread with rfl | hread
        · have hpc' := h.pc hpc
          rw [followed_of_no_key (wantsKey_press_run hpc' hlimit hopen)] at hending ⊢
          exact press_run_over hpc' hlimit hopen hending
        · exact ih hpressed hread hending
    · rw [followed_of_no_key (eq_false_of_ne_true hwants)] at hread
      cases hread

/-- A key is read only while there is something left to do. -/
theorem wantsKey_of_read {n : Nat} (h : n < (followed pace limit bound keys session).2.length) :
    (followed pace limit bound (keys.take n) session).2.length = n ∧
      wantsKey limit (followed pace limit bound (keys.take n) session).1 = true := by
  induction keys generalizing session n with
  | nil => exact absurd h (Nat.not_lt_zero n)
  | cons key keys ih =>
    by_cases hwants : wantsKey limit session = true
    · cases n with
      | zero => exact ⟨rfl, hwants⟩
      | succ n =>
        by_cases hquit : key = .quit
        · subst hquit
          rw [followed_quit hwants] at h
          exact absurd (Nat.lt_of_succ_lt_succ h) (Nat.not_lt_zero n)
        · rw [followed_cons hwants hquit] at h
          rw [List.take_succ_cons, followed_cons hwants hquit]
          obtain ⟨hlength, hlater⟩ := ih (Nat.lt_of_succ_lt_succ h)
          exact ⟨congrArg (· + 1) hlength, hlater⟩
    · rw [followed_of_no_key (eq_false_of_ne_true hwants)] at h
      exact absurd h (Nat.not_lt_zero n)

/-! ## Sessions that come to the same -/

theorem Session.Like.press {pace' : Pace} (hlimit : 0 ≤ limit)
    (htrace : pace'.trace = pace.trace) (h : session.Like other)
    (hopen : limitReached limit session.executed = false) (key : Key) :
    (press pace limit bound session key).Like (press pace' limit bound other key) := by
  have hopen' : limitReached limit other.executed = false := by rwa [← h.executed]
  cases hquota : key.quota? limit session.executed with
  | none =>
    have hquota' : key.quota? limit other.executed = none := by rwa [← h.executed]
    rwa [press_of_no_quota hquota, press_of_no_quota hquota']
  | some quota =>
    have hquota' : key.quota? limit other.executed = some quota := by rwa [← h.executed]
    have hlike := like_press hlimit hopen hquota pace bound
    have hlike' := like_press hlimit hopen' hquota' pace' bound
    rw [htrace, ← h.core] at hlike'
    exact hlike.trans (.trans (.followedBy h.executed (.refl _)) hlike'.symm)

/-- Pauses make no difference to where keys take a session, nor to how many of them it reads. -/
theorem Session.Like.followed {pace' : Pace} (hlimit : 0 ≤ limit)
    (htrace : pace'.trace = pace.trace) (bound : Nat) (keys : List Key) (h : session.Like other) :
    (followed pace limit bound keys session).1.Like (followed pace' limit bound keys other).1 ∧
      (Simulator.followed pace' limit bound keys other).2 =
        (Simulator.followed pace limit bound keys session).2 := by
  induction keys generalizing session other with
  | nil => exact ⟨h, rfl⟩
  | cons key keys ih =>
    by_cases hwants : wantsKey limit session = true
    · have hwants' : wantsKey limit other = true := by rwa [← h.wantsKey_eq]
      by_cases hquit : key = .quit
      · subst hquit
        rw [followed_quit hwants, followed_quit hwants']
        exact ⟨h, rfl⟩
      · obtain ⟨hlike, hread⟩ := ih (h.press hlimit htrace (wantsKey_iff.1 hwants).2.2 key)
        rw [followed_cons hwants hquit, followed_cons hwants' hquit]
        exact ⟨hlike, congrArg (key :: ·) hread⟩
    · have hunwanted := eq_false_of_ne_true hwants
      have hunwanted' : wantsKey limit other = false := by rwa [← h.wantsKey_eq]
      rw [followed_of_no_key hunwanted, followed_of_no_key hunwanted']
      exact ⟨h, rfl⟩

/-- Keys that ask for something. -/
def meant (keys : List Key) : List Key := keys.filter (· ≠ .other)

/-- Keys that ask for nothing make no difference to where keys take a session. -/
theorem followed_meant (pace : Pace) (limit : Int) (bound : Nat) (keys : List Key)
    (session : Session) :
    followed pace limit bound (meant keys) session =
      ((followed pace limit bound keys session).1,
        meant (followed pace limit bound keys session).2) := by
  induction keys generalizing session with
  | nil => rfl
  | cons key keys ih =>
    by_cases hwants : wantsKey limit session = true
    · by_cases hother : key = .other
      · subst hother
        have hquit : Key.other ≠ .quit := by decide
        rw [followed_cons hwants hquit]
        exact ih session
      · have hmeant : ∀ keys, meant (key :: keys) = key :: meant keys := by
          intro keys
          simp [meant, hother]
        by_cases hquit : key = .quit
        · subst hquit
          rw [hmeant, followed_quit hwants, followed_quit hwants]
          rfl
        · rw [hmeant, followed_cons hwants hquit, followed_cons hwants hquit, ih, hmeant]
    · have hunwanted := eq_false_of_ne_true hwants
      rw [followed_of_no_key hunwanted, followed_of_no_key hunwanted]
      rfl

/-! ## Interactive sessions -/

theorem withinBudget_opened (c : Core) (trace : Option Bool) (limit : Int) :
    (opened c).WithinBudget c trace limit :=
  ⟨⟨0, rfl, rfl⟩, fun hlimit => Int.le_of_lt hlimit⟩

theorem interact_eq (c : Core) (pace : Pace) (limit : Int) (keys : List Key) (bound : Nat) :
    interact c pace limit keys bound =
      ⟨(followed pace limit bound keys (opened c)).1,
        (followed pace limit bound keys (opened c)).2.length⟩ := by
  rw [interact, followKeys_eq, Nat.zero_add]

/-- How an interactive session of a core goes. -/
structure Keeps (c : Core) (pace : Pace) (limit : Int) (keys : List Key) (bound : Nat)
    (i : Interaction) : Prop where
  /-- It takes steps, counts the instructions that they execute and keeps to its limit. -/
  budget : i.session.WithinBudget c pace.trace limit
  /-- A run that is over leaves nothing to do. -/
  ran : i.session.ending = .finished → .run ∈ keys.take i.keysUsed →
    i.session.core.halted = true ∨ 0 < limit ∧ i.session.executed = limit
  /-- A key is read only while the core has not stopped and the limit is not reached. -/
  wanted : ∀ n < i.keysUsed,
    (interact c pace limit (keys.take n) bound).keysUsed = n ∧
    (interact c pace limit (keys.take n) bound).session.core.halted = false ∧
    (0 < limit → (interact c pace limit (keys.take n) bound).session.executed < limit)
  /-- Pauses make no difference. -/
  pauses : ∀ pausing,
    i.session.Like (interact c ⟨pausing, pace.trace⟩ limit keys bound).session ∧
    (interact c ⟨pausing, pace.trace⟩ limit keys bound).keysUsed = i.keysUsed
  /-- Keys that ask for nothing make no difference to those that ask for something. -/
  ignored : ∀ keys', meant keys' = meant keys →
    i.session.Like (interact c pace limit keys' bound).session ∧
    meant (keys'.take (interact c pace limit keys' bound).keysUsed) = meant (keys.take i.keysUsed)

/-- Under a limit that is not negative, a session takes plain steps and keeps to its limit, whatever
keys are pressed. -/
theorem keeps (hpc : 0 ≤ c.pc) (hlimit : 0 ≤ limit) (pace : Pace) (keys : List Key)
    (bound : Nat) : Keeps c pace limit keys bound (interact c pace limit keys bound) where
  budget := by
    rw [interact_eq]
    exact (withinBudget_opened c pace.trace limit).followed hpc hlimit bound keys
  ran := by
    rw [interact_eq, ← followed_read]
    intro hending hread
    exact followed_run_over hpc hlimit (withinBudget_opened c pace.trace limit) hread hending
  wanted n h := by
    rw [interact_eq] at h ⊢
    obtain ⟨hlength, hwants⟩ := wantsKey_of_read h
    obtain ⟨-, hrun, hopen⟩ := wantsKey_iff.1 hwants
    exact ⟨hlength, hrun, fun hpositive => lt_of_not_reached hpositive hopen⟩
  pauses pausing := by
    have htrace : (Pace.mk pausing pace.trace).trace = pace.trace := rfl
    obtain ⟨hlike, hread⟩ := (Session.Like.refl (opened c)).followed hlimit htrace bound keys
    rw [interact_eq, interact_eq]
    exact ⟨hlike, congrArg List.length hread⟩
  ignored keys' hkeys := by
    have hmeant := followed_meant pace limit bound keys (opened c)
    rw [← hkeys, followed_meant] at hmeant
    obtain ⟨hsession, hread⟩ := Prod.mk.inj hmeant
    rw [interact_eq, interact_eq, ← followed_read, ← followed_read, hsession]
    exact ⟨.refl _, hread⟩

/-- A step, a key that asks for nothing, and a run to the limit, at which the last key is not
read. -/
theorem keeps_step_run :
    let c := { Core.fresh false with
      program := Core.programOf [0x00500093, 0x00700113, 0x00900193] }
    let i := interact c ⟨true, none⟩ 2 [.step, .other, .run, .step] 9
    0 ≤ c.pc ∧ (0 : Int) ≤ 2 ∧ Keeps c ⟨true, none⟩ 2 [.step, .other, .run, .step] 9 i ∧
      i.session.ending = .finished ∧ i.session.executed = 2 ∧ i.keysUsed = 3 := by
  intro c i
  have hpc : 0 ≤ c.pc := Int.le_refl 0
  have hlimit : (0 : Int) ≤ 2 := by decide
  exact ⟨hpc, hlimit, keeps hpc hlimit _ _ _, by decide +kernel, by decide +kernel,
    by decide +kernel⟩

end Simulator

end SingleCycle
