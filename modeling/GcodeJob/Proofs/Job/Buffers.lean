import GcodeJob.Proofs.Job.Effects
import GcodeJob.Proofs.ReadAhead.Working

/-!
# GcodeJob.Proofs.Job.Buffers

What happens to the buffers of the feeds.  Feeds are never removed, and each
incident does one of few things to a buffer (`Controller.Handles`): a producer
takes a step, the run that executes the feed starts it or lacks a thread for it,
takes from it or stops it, or it is stopped at rest.  So the producers of every buffer of every
controller stay in order (`Controller.HasFeeds`).
-/

namespace GcodeJob.Controller

/-- What an incident does to the buffer of a feed. -/
inductive Handles (c : Controller) (feed : Nat) : Incident → Buffer → Buffer → Prop
  | leaves (i : Incident) (b : Buffer) : c.Handles feed i b b
  | produces (p : Program) (number : Nat) (b : Buffer) :
    c.Handles feed (.event (.stepProducer feed number)) b (b.stepProducer c.now p number).2
  | starts {chance : Chance} {number : Nat} {r : Run} {state : IndexState} {b b' : Buffer} :
    c.runs[number]? = some r → r.point = .starting → r.feed? = some feed →
    b.start (some state) = .ok b' → c.Handles feed (.event (.stepRun chance number)) b b'
  | lacks {chance : Chance} {number : Nat} {r : Run} (state : IndexState) (b : Buffer) :
    c.runs[number]? = some r → r.point = .starting → r.feed? = some feed →
    c.Handles feed (.event (.stepRun chance number)) b (b.startThreadless (some state))
  | takes {chance : Chance} {number : Nat} {r : Run} (b : Buffer) :
    c.runs[number]? = some r → r.point = .fetching → r.feed? = some feed →
    c.Handles feed (.event (.stepRun chance number)) b b.next.2
  | stops {chance : Chance} {number : Nat} {r : Run} {outcome : Outcome} (b : Buffer) :
    c.runs[number]? = some r → r.point = .leaving outcome → r.feed? = some feed →
    c.Handles feed (.event (.stepRun chance number)) b b.stop
  | unloads (i : Incident) (b : Buffer) : c.status.state = .idle → c.loaded? = some feed →
    c.Handles feed i b b.stop

section
variable {c c' : Controller} {i : Incident} {feed number : Nat} {r : Run}

/-! ## One feed -/

theorem getElem?_feeds_onBuffer (c : Controller) (number : Nat) (act : Buffer → Buffer) (feed : Nat) :
    (c.onBuffer number act).feeds[feed]? =
      c.feeds[feed]?.map fun f => if number = feed then { f with buffer := act f.buffer } else f := by
  simp only [onBuffer, Array.getElem?_modify]
  split <;> cases c.feeds[feed]? <;> rfl

/-- The feeds after an incident: all of them read what they read before, their
buffers have been handled, and one that is new has a fresh buffer. -/
structure HandlesFeeds (c : Controller) (i : Incident) (c' : Controller) : Prop where
  kept : ∀ {feed : Nat} {f : Feed}, c.feeds[feed]? = some f →
    ∃ b, c'.feeds[feed]? = some { f with buffer := b } ∧ c.Handles feed i f.buffer b
  fresh : ∀ {feed : Nat} {f : Feed}, c'.feeds[feed]? = some f → c.feeds[feed]? = none →
    f.buffer = { settings := c.settings.buffer }

theorem handlesFeeds_of_same (feeds : c'.feeds = c.feeds) : c.HandlesFeeds i c' where
  kept {_ f} found := ⟨f.buffer, feeds ▸ found, .leaves _ _⟩
  fresh found none := by
    rw [feeds, none] at found
    cases found

/-- Something happens to the buffer of one feed. -/
theorem handlesFeeds_onBuffer (number : Nat) (act : Buffer → Buffer)
    (handles : ∀ f, c.feeds[number]? = some f → c.Handles number i f.buffer (act f.buffer))
    (feeds : c'.feeds = (c.onBuffer number act).feeds) : c.HandlesFeeds i c' where
  kept {feed f} found := by
    rw [feeds, getElem?_feeds_onBuffer, found]
    by_cases own : number = feed
    · exact ⟨act f.buffer, by simp [own], own ▸ handles f (own ▸ found)⟩
    · exact ⟨f.buffer, by simp [own], .leaves _ _⟩
  fresh found none := by
    rw [feeds, getElem?_feeds_onBuffer, none] at found
    cases found

/-- Something happens to one feed and to its program. -/
theorem handlesFeeds_onFeed (number : Nat) (act : Program → Buffer → Program × Buffer)
    (handles : ∀ p b, c.Handles number i b (act p b).2)
    (feeds : c'.feeds = (c.onFeed number act).feeds) : c.HandlesFeeds i c' := by
  cases reader : c.feed? number with
  | none =>
    refine handlesFeeds_of_same (feeds.trans ?_)
    rw [onFeed, reader]
  | some reading =>
    obtain ⟨g, p⟩ := reading
    rw [onFeed_of_feed? reader] at feeds
    refine handlesFeeds_onBuffer number (fun _ => (act p g.buffer).2) (fun f found => ?_) feeds
    obtain rfl : g = f := Option.some.inj ((feed?_eq_some.mp reader).1.symm.trans found)
    exact handles p g.buffer

/-! ## Steps of runs -/

theorem feeds_poll : (c.poll number r).feeds = c.feeds := by
  unfold poll
  split <;> rfl

theorem feeds_wake (chance : Chance) (errand : Errand) (moment : Nat) :
    (c.wake chance number r errand moment).feeds = c.feeds := by
  unfold wake
  split
  next => rfl
  next => split <;> rfl

theorem feeds_check : (c.check number r).feeds = c.feeds := by
  unfold check takeSignal
  cases c.signal <;> rfl

theorem feeds_hold : (c.hold number r).feeds = c.feeds := by
  unfold hold takeSignal
  cases c.signal <;> rfl

/-- The feed that a run reads, with its program. -/
theorem feed?_of_reads {other : Nat} {g : Feed} {p : Program}
    (reads : (r.feed?.bind fun f => (c.feed? f).map (f, ·)) = some (other, g, p)) :
    r.feed? = some other ∧ c.feeds[other]? = some g := by
  simp only [Option.bind_eq_some_iff, Option.map_eq_some_iff] at reads
  obtain ⟨f, own, reader, at_feed, same⟩ := reads
  obtain ⟨rfl, rfl⟩ := Prod.mk.inj same
  exact ⟨own, (feed?_eq_some.mp at_feed).1⟩

section
variable (at_run : c.runs[number]? = some r) (chance : Chance)
include at_run

theorem handlesFeeds_startFeed (at_ : r.point = .starting) :
    c.HandlesFeeds (.event (.stepRun chance number)) (c.startFeed number r) := by
  unfold startFeed
  split
  next => exact handlesFeeds_of_same rfl
  next other g p reads =>
    obtain ⟨own, at_feed⟩ := feed?_of_reads reads
    split
    next =>
      split
      next => exact handlesFeeds_of_same rfl
      next buffer started =>
        refine handlesFeeds_onBuffer other (fun _ => buffer) (fun f found => ?_) rfl
        obtain rfl : g = f := Option.some.inj (at_feed.symm.trans found)
        exact .starts at_run at_ own started
    next =>
      exact handlesFeeds_onBuffer other (·.startThreadless (some p.state))
        (fun f _ => .lacks p.state f.buffer at_run at_ own) rfl

theorem handlesFeeds_fetch (at_ : r.point = .fetching) :
    c.HandlesFeeds (.event (.stepRun chance number)) (c.fetch number r) := by
  unfold fetch
  split
  next => exact handlesFeeds_of_same rfl
  next other g p reads =>
    obtain ⟨own, at_feed⟩ := feed?_of_reads reads
    refine handlesFeeds_onBuffer other (fun _ => g.buffer.next.2) (fun f found => ?_) rfl
    obtain rfl : g = f := Option.some.inj (at_feed.symm.trans found)
    exact .takes _ at_run at_ own

theorem handlesFeeds_leave {outcome : Outcome} (at_ : r.point = .leaving outcome) :
    c.HandlesFeeds (.event (.stepRun chance number)) (c.leave number r outcome) := by
  unfold leave
  dsimp only
  split
  next own =>
    exact handlesFeeds_onBuffer _ Buffer.stop (fun _ _ => .stops _ at_run at_ own) rfl
  next => exact handlesFeeds_of_same rfl

omit at_run in
theorem handlesFeeds_recordTime {command : Issued} :
    c.HandlesFeeds (.event (.stepRun chance number)) (c.recordTime number r command) := by
  unfold recordTime
  dsimp only
  split
  next => exact handlesFeeds_onFeed _ _ (fun _ _ => .leaves _ _) rfl
  next => exact handlesFeeds_of_same rfl

/-- A step of a run handles the buffer of its own feed. -/
theorem handlesFeeds_stepRun :
    c.HandlesFeeds (.event (.stepRun chance number)) (c.stepRun chance number) := by
  unfold stepRun
  rw [at_run]
  dsimp only
  cases at_ : r.point with
  | starting => exact handlesFeeds_startFeed at_run chance at_
  | fetching => exact handlesFeeds_fetch at_run chance at_
  | recording command => exact handlesFeeds_recordTime chance
  | leaving outcome => exact handlesFeeds_leave at_run chance at_
  | polling => exact handlesFeeds_of_same feeds_poll
  | asleep errand moment => exact handlesFeeds_of_same (feeds_wake chance errand moment)
  | checkpoint => exact handlesFeeds_of_same feeds_check
  | holding => exact handlesFeeds_of_same feeds_hold
  | _ => exact handlesFeeds_of_same rfl

end

/-! ## One incident -/

/-- What is loaded is stopped at rest. -/
theorem handlesFeeds_stopLoaded (idle : c.status.state = .idle)
    (feeds : c'.feeds = c.stopLoaded.feeds) : c.HandlesFeeds i c' := by
  unfold stopLoaded at feeds
  split at feeds
  next own => exact handlesFeeds_onBuffer _ Buffer.stop (fun _ _ => .unloads _ _ idle own) feeds
  next => exact handlesFeeds_of_same feeds

/-- A feed more. -/
theorem HandlesFeeds.push {c'' : Controller} (h : c.HandlesFeeds i c') {program : Nat}
    (size : c'.feeds.size = c.feeds.size)
    (feeds : c''.feeds = c'.feeds.push { program, buffer := { settings := c.settings.buffer } }) :
    c.HandlesFeeds i c'' where
  kept {feed _} found := by
    have lt := (Array.getElem?_eq_some_iff.mp found).1
    rw [feeds, Array.getElem?_push, if_neg (by omega)]
    exact h.kept found
  fresh found none := by
    rw [feeds, Array.getElem?_push] at found
    split at found
    next => exact Option.some.inj found ▸ rfl
    next => exact h.fresh found none

/-- **What an incident does to the feeds.** -/
theorem handlesFeeds_meet (c : Controller) (i : Incident) : c.HandlesFeeds i (c.meet i) := by
  have effect := c.effect_meet i
  generalize c.meet i = c' at effect ⊢
  cases effect with
  | produces feed producer => exact handlesFeeds_onFeed feed _ (fun p b => .produces p producer b) rfl
  | steps chance found => exact handlesFeeds_stepRun found chance
  | unloads _ _ _ idle => exact handlesFeeds_stopLoaded idle rfl
  | @loads program _ _ _ _ idle =>
    have stopped : c.HandlesFeeds (.event (.load program)) c.stopLoaded :=
      handlesFeeds_stopLoaded idle rfl
    exact stopped.push c.size_feeds_stopLoaded rfl
  | _ => exact handlesFeeds_of_same rfl

/-- The buffer of a feed that is there after an incident is fresh, or it has been handled. -/
theorem HandlesFeeds.fresh_or_handles (h : c.HandlesFeeds i c') {f' : Feed}
    (found' : c'.feeds[feed]? = some f') : f'.buffer = { settings := c.settings.buffer } ∨
      ∃ f, c.feeds[feed]? = some f ∧ c.Handles feed i f.buffer f'.buffer := by
  cases found : c.feeds[feed]? with
  | none => exact .inl (h.fresh found' found)
  | some f =>
    obtain ⟨b, after, handles⟩ := h.kept found
    obtain rfl := Option.some.inj (after.symm.trans found')
    exact .inr ⟨f, rfl, handles⟩

/-! ## What runs and feeds keep -/

/-- A run keeps to its feed, and one that begins takes the feed that is loaded. -/
theorem feed?_of_meet {r' : Run} (found' : (c.meet i).runs[number]? = some r') :
    r'.feed? = (c.runs[number]?.map Run.feed?).getD c.loaded? := by
  have becomes := c.run_meet i number
  rw [found'] at becomes
  generalize c.runs[number]? = r? at becomes ⊢
  cases becomes with
  | stays | begins | cancelled => rfl
  | steps _ _ displays => exact displays.feed?

/-- All buffers are in order, and what is loaded and what runs execute is there. -/
structure HasFeeds (c : Controller) : Prop where
  inOrder : ∀ {feed : Nat} {f : Feed}, c.feeds[feed]? = some f → f.buffer.InOrder
  loaded : ∀ {feed : Nat}, c.loaded? = some feed → feed < c.feeds.size
  executed : ∀ {number : Nat} {r : Run} {feed : Nat}, c.runs[number]? = some r →
    r.feed? = some feed → feed < c.feeds.size

/-- Whatever handles a buffer leaves it in order. -/
theorem Handles.inOrder {b b' : Buffer} (h : c.Handles feed i b b') (inOrder : b.InOrder) :
    b'.InOrder := by
  cases h with
  | leaves => exact inOrder
  | produces p number => exact (inOrder.stepProducer c.now p number).1
  | starts _ _ _ started => exact Buffer.Runs.start inOrder started trivial
  | lacks state => exact Buffer.Runs.startThreadless inOrder (some state)
  | takes => exact Buffer.Runs.next inOrder
  | stops | unloads => exact Buffer.Runs.stop inOrder

theorem HandlesFeeds.size_le (h : c.HandlesFeeds i c') : c.feeds.size ≤ c'.feeds.size := by
  by_contra fewer
  obtain ⟨b, found, -⟩ := h.kept (Array.getElem?_eq_getElem (Nat.lt_of_not_le fewer))
  have lt := (Array.getElem?_eq_some_iff.mp found).1
  omega

/-- What is loaded after an incident was loaded before, unless it is the feed that is new. -/
theorem loaded?_meet (c : Controller) (i : Incident) {feed : Nat}
    (loaded : (c.meet i).loaded? = some feed) :
    c.loaded? = some feed ∨ feed < (c.meet i).feeds.size := by
  have effect := c.effect_meet i
  generalize c.meet i = c' at effect loaded
  cases effect with
  | steps chance found =>
    obtain ⟨r', displays⟩ := c.displays_stepRun chance found
    exact .inl (displays.loaded?.symm.trans loaded)
  | unloads => cases loaded
  | loads =>
    cases loaded
    exact .inr (Array.size_push _ ▸ Nat.lt_succ_self _)
  | _ => exact .inl loaded

theorem HasFeeds.meet (h : c.HasFeeds) (i : Incident) : (c.meet i).HasFeeds where
  inOrder {feed f'} found' := by
    rcases (c.handlesFeeds_meet i).fresh_or_handles found' with fresh | ⟨f, found, handles⟩
    · rw [fresh]
      exact .fresh _ _
    · exact handles.inOrder (h.inOrder found)
  loaded loaded :=
    (c.loaded?_meet i loaded).elim
      (fun before => Nat.lt_of_lt_of_le (h.loaded before) (c.handlesFeeds_meet i).size_le) id
  executed {number _ _} found' own := by
    refine Nat.lt_of_lt_of_le ?_ (c.handlesFeeds_meet i).size_le
    rw [feed?_of_meet found'] at own
    cases found : c.runs[number]? with
    | none => exact h.loaded (by simpa [found] using own)
    | some r => exact h.executed found (by simpa [found] using own)

theorem HasFeeds.course (h : c.HasFeeds) (incidents : List Incident) :
    (c.course incidents).HasFeeds := by
  induction incidents generalizing c with
  | nil => exact h
  | cons i later ih => exact ih (h.meet i)

theorem hasFeeds_fresh (settings : Settings) : HasFeeds { settings } :=
  ⟨fun {_ _} found => by simp at found, nofun, fun {_ _ _} found => by simp at found⟩

/-- What holds when a run begins, and is kept by every incident that leaves it
in flight, holds of the run in flight at any time. -/
theorem run_invariant {P : Controller → Run → Prop} (settings : Settings)
    (begins : ∀ {c : Controller} {feed? : Option Nat}, c.status.state = .waiting → P c { feed? })
    (step : ∀ {c : Controller} {number : Nat} {r r' : Run} {i : Incident}, c.HasFeeds →
      c.Executes number r → P c r → (c.meet i).Executes number r' → P (c.meet i) r')
    (incidents : List Incident) {number : Nat} {r : Run}
    (h : (course { settings } incidents).Executes number r) : P (course { settings } incidents) r := by
  induction incidents using List.reverseRecOn generalizing number r with
  | nil =>
    have found := h.found
    simp [course] at found
  | append_singleton before i ih =>
    rw [course_concat] at h ⊢
    have orderly := ((orderly_fresh settings).course before).orderly
    have feeds := (hasFeeds_fresh settings).course before
    generalize course { settings } before = c at *
    have becomes := c.run_meet i number
    cases found : c.runs[number]? with
    | none =>
      rw [found, h.found] at becomes
      cases becomes with
      | begins _ waiting => exact begins waiting
    | some q =>
      have lt := (Array.getElem?_eq_some_iff.mp found).1
      obtain ⟨q, executes⟩ :=
        orderly.executes ((orderly.meet i).isInFlight number lt h.isInFlight)
      exact step feeds executes (ih executes) h

end

end GcodeJob.Controller
