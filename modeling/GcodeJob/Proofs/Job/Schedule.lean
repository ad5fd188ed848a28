import GcodeJob.Job.Schedule
import GcodeJob.Proofs.Job.Effects

/-!
# GcodeJob.Proofs.Job.Schedule

The schedule is one way among others for things to happen.  Whatever it does
in a turn could have been done event by event, and nothing is asked for
(`Controller.GoesOnTo`), so what holds of all courses of incidents holds of a
controller that takes its turns by the clock.
-/

namespace GcodeJob.Controller

/-- One controller comes from another by events that ask for nothing. -/
def GoesOnTo (c c' : Controller) : Prop :=
  ∃ events : List Event, (∀ e ∈ events, e.operation? = none) ∧ c' = c.course (events.map .event)

section
variable {c c' c'' : Controller}

theorem GoesOnTo.refl (c : Controller) : c.GoesOnTo c := ⟨[], by simp, rfl⟩

theorem GoesOnTo.trans (h : c.GoesOnTo c') (h' : c'.GoesOnTo c'') : c.GoesOnTo c'' := by
  obtain ⟨events, unasked, rfl⟩ := h
  obtain ⟨later, unasked', rfl⟩ := h'
  refine ⟨events ++ later, fun e mem => ?_, ?_⟩
  · exact (List.mem_append.mp mem).elim (unasked e) (unasked' e)
  · rw [List.map_append, course_append]

theorem goesOnTo_after (c : Controller) {e : Event} (unasked : e.operation? = none) :
    c.GoesOnTo (c.after e) :=
  ⟨[e], fun _ mem => List.mem_singleton.mp mem ▸ unasked, rfl⟩

/-- What goes on by itself one after the other goes on by itself. -/
theorem goesOnTo_foldl {α : Type} {step : Controller → α → Controller}
    (goes : ∀ (c : Controller) x, c.GoesOnTo (step c x)) (c : Controller) (xs : List α) :
    c.GoesOnTo (xs.foldl step c) := by
  induction xs generalizing c with
  | nil => exact .refl c
  | cons x xs ih => exact (goes c x).trans (ih (step c x))

/-! ## Producers at work -/

section
variable {number : Nat} {f g : Program → Buffer → Program × Buffer}

/-- Only what is made of the feed that is found matters. -/
theorem onFeed_congr
    (same : ∀ feed p, c.feed? number = some (feed, p) → f p feed.buffer = g p feed.buffer) :
    c.onFeed number f = c.onFeed number g := by
  unfold onFeed
  split
  next => rfl
  next feed p found => rw [same feed p found]

/-- How a feed goes on may depend on what it is. -/
theorem goesOnTo_onFeed
    (goes : ∀ feed p, c.feed? number = some (feed, p) →
      ∃ g, c.GoesOnTo (c.onFeed number g) ∧ f p feed.buffer = g p feed.buffer) :
    c.GoesOnTo (c.onFeed number f) := by
  cases found : c.feed? number with
  | none =>
    rw [onFeed, found]
    exact .refl c
  | some at_ =>
    obtain ⟨feed, p⟩ := at_
    obtain ⟨g, goes, same⟩ := goes feed p found
    refine onFeed_congr (fun feed' p' found' => ?_) ▸ goes
    obtain ⟨rfl, rfl⟩ := Prod.mk.inj (Option.some.inj (found.symm.trans found'))
    exact same.symm

@[simp] theorem now_onFeed (c : Controller) (number : Nat)
    (f : Program → Buffer → Program × Buffer) : (c.onFeed number f).now = c.now := by
  rw [onFeed_eq]

theorem onFeed_mk (c : Controller) (number : Nat) : c.onFeed number Prod.mk = c := by
  unfold onFeed
  split
  next => rfl
  next feed p found =>
    obtain ⟨at_feed, at_program⟩ := feed?_eq_some.mp found
    dsimp only
    rw [setIfInBounds_of_getElem? at_feed, setIfInBounds_of_getElem? at_program]

theorem onFeed_onFeed (c : Controller) (number : Nat) (f g : Program → Buffer → Program × Buffer) :
    (c.onFeed number f).onFeed number g =
      c.onFeed number fun p b => g (f p b).1 (f p b).2 := by
  cases found : c.feed? number with
  | none =>
    have same (h : Program → Buffer → Program × Buffer) : c.onFeed number h = c := by
      rw [onFeed, found]
    rw [same f, same g, same]
  | some at_ =>
    obtain ⟨feed, p⟩ := at_
    obtain ⟨at_feed, at_program⟩ := feed?_eq_some.mp found
    have feed_lt := (Array.getElem?_eq_some_iff.mp at_feed).1
    have program_lt := (Array.getElem?_eq_some_iff.mp at_program).1
    have found' : (c.onFeed number f).feed? number =
        some ({ feed with buffer := (f p feed.buffer).2 }, (f p feed.buffer).1) := by
      rw [feed?_eq_some, onFeed, found]
      simp [feed_lt, program_lt]
    rw [onFeed, found', onFeed, found, onFeed, found]
    simp

end

/-- Producers take steps of which each is an event. -/
theorem goesOnTo_foldl_stepProducer (c : Controller) (feed : Nat) (numbers : List Nat) :
    c.GoesOnTo (c.onFeed feed fun p b =>
      numbers.foldl (fun (p, b) number => b.stepProducer c.now p number) (p, b)) := by
  induction numbers generalizing c with
  | nil => exact (c.onFeed_mk feed).symm ▸ .refl c
  | cons number numbers ih =>
    have later := ih (c.stepProducer feed number)
    rw [stepProducer, onFeed_onFeed, now_onFeed] at later
    exact (c.goesOnTo_after (e := .stepProducer feed number) rfl).trans later

theorem goesOnTo_work (c : Controller) (number n : Nat) :
    c.GoesOnTo (c.onFeed number fun p b => b.work c.now n p) := by
  induction n generalizing c with
  | zero => exact (c.onFeed_mk number).symm ▸ .refl c
  | succ n ih =>
    refine goesOnTo_onFeed fun feed p _ => ?_
    by_cases ready : feed.buffer.producers.any (·.isReady c.now) = true
    · have stepped : c.GoesOnTo (c.onFeed number fun p b => b.stepAll c.now p) :=
        goesOnTo_onFeed fun feed _ _ =>
          ⟨_, c.goesOnTo_foldl_stepProducer number (List.range feed.buffer.producers.size), rfl⟩
      have later := ih (c.onFeed number fun p b => b.stepAll c.now p)
      rw [onFeed_onFeed, now_onFeed] at later
      exact ⟨_, stepped.trans later, by rw [Buffer.work, if_pos ready]⟩
    · refine ⟨Prod.mk, (c.onFeed_mk number).symm ▸ .refl c, ?_⟩
      rw [Buffer.work, if_neg ready]

/-- Producers that work until all of them rest. -/
theorem goesOnTo_produce (c : Controller) : c.GoesOnTo c.produce :=
  goesOnTo_foldl (fun c number => goesOnTo_onFeed fun feed p _ =>
    ⟨_, c.goesOnTo_work number (feed.buffer.stepsToEnd p), rfl⟩) c _

/-! ## Runs and turns -/

theorem goesOnTo_resumeRun (c : Controller) (chance : Chance) (number n : Nat) :
    c.GoesOnTo (resumeRun chance number n c) := by
  induction n generalizing c with
  | zero => exact .refl c
  | succ n ih =>
    rw [resumeRun]
    split
    · exact (c.goesOnTo_after (e := .stepRun chance number) rfl).trans (ih _)
    · exact .refl c

/-- **A turn** is what happens to a controller by itself. -/
theorem goesOnTo_turn? {chance : Chance} {limit? : Option Nat}
    (turn : c.turn? chance limit? = some c') : c.GoesOnTo c' := by
  unfold turn? at turn
  dsimp only at turn
  refine c.goesOnTo_produce.trans ?_
  split at turn
  next number _ => exact Option.some.inj turn ▸ goesOnTo_resumeRun ..
  next =>
    obtain ⟨moment, -, turn⟩ := Option.bind_eq_some_iff.mp turn
    split at turn
    · exact Option.some.inj turn ▸ goesOnTo_after _ (e := .advanceTo moment) rfl
    · cases turn

end

end GcodeJob.Controller
