import GcodeJob.Proofs.Job.Events
import GcodeJob.Proofs.ReadAhead.Buffer

/-!
# GcodeJob.Proofs.Job.Feeds

The feeds of a controller.  Every feed reads a program that is there, and its
buffer is one that reads the commands of this program ahead (`Controller.Fed`).
What goes on in the background, producers, indexes, readers, clocks and
programs opened and closed, leaves the commands of every feed as they are and
loses nothing of what it delivers (`Controller.Advances`).
-/

namespace GcodeJob.Controller

/-- The commands that a feed reads ahead, and its buffer. -/
def reads? (c : Controller) (feed : Nat) : Option (List Command × Buffer) :=
  (c.feed? feed).map fun (f, p) => (p.commands, f.buffer)

/-- Programs that agree with their files, and feeds that read them. -/
structure Fed (c : Controller) : Prop where
  programs : ∀ p ∈ c.programs, p.Sound
  reads : ∀ feed < c.feeds.size, ∃ commands b, c.reads? feed = some (commands, b)
  buffers : ∀ feed commands b, c.reads? feed = some (commands, b) → b.Sound commands

/-- Every feed reads the commands that it read before. -/
def SameCommands (c c' : Controller) : Prop :=
  ∀ feed commands b, c.reads? feed = some (commands, b) → ∃ b', c'.reads? feed = some (commands, b')

/-- Every feed reads the commands that it read before, and still delivers what it delivered. -/
def Advances (c c' : Controller) : Prop :=
  ∀ feed commands b, c.reads? feed = some (commands, b) →
    ∃ b', c'.reads? feed = some (commands, b') ∧
      ∀ taken, b.Delivers commands taken → b'.Delivers commands taken

theorem Advances.sameCommands {c c' : Controller} (h : Advances c c') : SameCommands c c' :=
  fun feed commands b reads =>
    let ⟨b', reads', _⟩ := h feed commands b reads
    ⟨b', reads'⟩

theorem SameCommands.trans {c c' c'' : Controller} (first : SameCommands c c')
    (second : SameCommands c' c'') : SameCommands c c'' :=
  fun feed commands b reads =>
    let ⟨b', reads'⟩ := first feed commands b reads
    second feed commands b' reads'

theorem Advances.refl (c : Controller) : Advances c c :=
  fun _ _ b reads => ⟨b, reads, fun _ delivers => delivers⟩

/-- Only programs and feeds matter to what is read. -/
theorem reads?_congr {c c' : Controller} (programs : c'.programs = c.programs)
    (feeds : c'.feeds = c.feeds) : c'.reads? = c.reads? := by
  funext feed
  rw [reads?, reads?, feed?, feed?, programs, feeds]

theorem Fed.congr {c c' : Controller} (h : Fed c) (programs : c'.programs = c.programs)
    (feeds : c'.feeds = c.feeds) : Fed c' := by
  have reads := reads?_congr programs feeds
  refine ⟨programs ▸ h.programs, ?_, ?_⟩
  · rw [reads, feeds]
    exact h.reads
  · rw [reads]
    exact h.buffers

theorem Advances.congr {c c' : Controller} (programs : c'.programs = c.programs)
    (feeds : c'.feeds = c.feeds) : Advances c c' := by
  unfold Advances
  rw [reads?_congr programs feeds]
  exact Advances.refl c

theorem SameCommands.congr {c c' : Controller} (programs : c'.programs = c.programs)
    (feeds : c'.feeds = c.feeds) : SameCommands c c' :=
  (Advances.congr programs feeds).sameCommands

section
variable {c : Controller}

theorem reads?_eq_some {feed : Nat} {commands : List Command} {b : Buffer} :
    c.reads? feed = some (commands, b) ↔ ∃ f p, c.feeds[feed]? = some f ∧
      c.programs[f.program]? = some p ∧ p.commands = commands ∧ f.buffer = b := by
  simp only [reads?, feed?, Option.map_eq_some_iff, Option.bind_eq_some_iff, Prod.mk.injEq]
  constructor
  · rintro ⟨_, ⟨f, at_feed, p, at_program, rfl⟩, same⟩
    exact ⟨f, p, at_feed, at_program, same⟩
  · rintro ⟨f, p, at_feed, at_program, same⟩
    exact ⟨_, ⟨f, at_feed, p, at_program, rfl⟩, same⟩

/-! ## Programs -/

/-- Whatever keeps a program sound and its commands as they are does not concern the feeds. -/
theorem Fed.onProgram (h : Fed c) (number : Nat) {f : Program → Program}
    (keeps : ∀ p, c.programs[number]? = some p → p.Sound →
      (f p).Sound ∧ (f p).commands = p.commands) :
    Fed (c.onProgram number f) ∧ (c.onProgram number f).reads? = c.reads? := by
  have reads : (c.onProgram number f).reads? = c.reads? := by
    funext feed
    unfold reads? feed? Controller.onProgram
    dsimp only
    cases c.feeds[feed]? with
    | none => rfl
    | some at_ =>
      rw [Option.bind_some, Option.bind_some, Array.getElem?_modify]
      split
      next same =>
        cases at_program : c.programs[at_.program]? with
        | none => rfl
        | some p =>
          have sound := h.programs p (Array.mem_of_getElem? at_program)
          simp only [Option.map_some]
          rw [(keeps p (same ▸ at_program) sound).2]
      next => rfl
  refine ⟨⟨fun p mem => ?_, reads ▸ h.reads, reads ▸ h.buffers⟩, reads⟩
  obtain ⟨other, lt, rfl⟩ := Array.getElem_of_mem mem
  have lt : other < c.programs.size := by simpa [Controller.onProgram] using lt
  have before := h.programs _ (Array.getElem_mem lt)
  simp only [Controller.onProgram, Array.getElem_modify]
  split
  next same => exact (keeps _ (same ▸ Array.getElem?_eq_getElem lt) before).1
  next => exact before

/-- A program more is none that a feed reads. -/
theorem Fed.addProgram (h : Fed c) {p : Program} (sound : p.Sound) :
    Fed (c.addProgram p) ∧ Advances c (c.addProgram p) := by
  have reads (feed : Nat) (commands : List Command) (b : Buffer)
      (before : c.reads? feed = some (commands, b)) :
      (c.addProgram p).reads? feed = some (commands, b) := by
    obtain ⟨f, q, at_feed, at_program, same⟩ := reads?_eq_some.mp before
    refine reads?_eq_some.mpr ⟨f, q, at_feed, ?_, same⟩
    have lt := (Array.getElem?_eq_some_iff.mp at_program).1
    rw [Controller.addProgram, Array.getElem?_push, if_neg (by omega), at_program]
  refine ⟨⟨fun q mem => ?_, fun feed lt => ?_, fun feed commands b after => ?_⟩,
    fun feed commands b before => ⟨b, reads feed commands b before, fun _ delivers => delivers⟩⟩
  · rcases Array.mem_push.mp mem with before | rfl
    · exact h.programs q before
    · exact sound
  · obtain ⟨commands, b, before⟩ := h.reads feed lt
    exact ⟨commands, b, reads feed commands b before⟩
  · obtain ⟨f, -, at_feed, -⟩ := reads?_eq_some.mp after
    obtain ⟨commands', b', before⟩ := h.reads feed (Array.getElem?_eq_some_iff.mp at_feed).1
    obtain ⟨rfl, rfl⟩ := Prod.mk.inj (Option.some.inj ((reads _ _ _ before).symm.trans after))
    exact h.buffers _ _ _ before

/-! ## Buffers -/

/-- What happens to the buffer of one feed. -/
theorem reads?_onBuffer (c : Controller) (number : Nat) (f : Buffer → Buffer) (feed : Nat) :
    (c.onBuffer number f).reads? feed =
      (c.reads? feed).map fun (commands, b) => (commands, if number = feed then f b else b) := by
  unfold reads? feed? onBuffer
  dsimp only
  rw [Array.getElem?_modify]
  cases c.feeds[feed]? with
  | none => split <;> rfl
  | some at_ =>
    split
    all_goals
      simp only [Option.map_some, Option.bind_some]
      cases c.programs[at_.program]? <;> simp [*]

/-- Whatever keeps a buffer one of its commands keeps all of them. -/
theorem Fed.onBuffer (h : Fed c) (number : Nat) {f : Buffer → Buffer}
    (keeps : ∀ commands b, c.reads? number = some (commands, b) → (f b).Sound commands) :
    Fed (c.onBuffer number f) ∧ SameCommands c (c.onBuffer number f) := by
  have reads := c.reads?_onBuffer number f
  refine ⟨⟨h.programs, fun feed lt => ?_, fun feed commands b after => ?_⟩,
    fun feed commands b before => ?_⟩
  · obtain ⟨commands, b, before⟩ :=
      h.reads feed (by simpa [Controller.onBuffer] using lt)
    rw [reads, before]
    exact ⟨_, _, rfl⟩
  · rw [reads, Option.map_eq_some_iff] at after
    obtain ⟨⟨commands', b'⟩, before, same⟩ := after
    obtain ⟨rfl, rfl⟩ := Prod.mk.inj same
    split
    next own => exact keeps _ _ (own ▸ before)
    next => exact h.buffers _ _ _ before
  · rw [reads, before]
    exact ⟨_, rfl⟩

/-- Another buffer for the same commands. -/
theorem Fed.setBuffer (h : Fed c) {number : Nat} {commands : List Command} {b b' : Buffer}
    (reads : c.reads? number = some (commands, b)) (sound : b'.Sound commands) :
    Fed (c.onBuffer number fun _ => b') ∧ SameCommands c (c.onBuffer number fun _ => b') ∧
      (c.onBuffer number fun _ => b').reads? number = some (commands, b') := by
  obtain ⟨fed, same⟩ := h.onBuffer number (f := fun _ => b') fun commands' _ reads' => by
    obtain ⟨rfl, -⟩ := Prod.mk.inj (Option.some.inj (reads.symm.trans reads'))
    exact sound
  refine ⟨fed, same, ?_⟩
  rw [reads?_onBuffer, reads]
  simp

theorem feed?_eq_some {number : Nat} {feed : Feed} {p : Program} :
    c.feed? number = some (feed, p) ↔
      c.feeds[number]? = some feed ∧ c.programs[feed.program]? = some p := by
  simp only [feed?, Option.bind_eq_some_iff, Option.map_eq_some_iff, Prod.mk.injEq]
  constructor
  · rintro ⟨f, at_feed, q, at_program, rfl, rfl⟩
    exact ⟨at_feed, at_program⟩
  · rintro ⟨at_feed, at_program⟩
    exact ⟨feed, at_feed, p, at_program, rfl, rfl⟩

/-- What happens to a feed happens to its program and to its buffer. -/
theorem onFeed_of_feed? {number : Nat} {feed : Feed} {p : Program}
    (found : c.feed? number = some (feed, p)) (f : Program → Buffer → Program × Buffer) :
    c.onFeed number f =
      (c.onProgram feed.program fun _ => (f p feed.buffer).1).onBuffer number
        fun _ => (f p feed.buffer).2 := by
  obtain ⟨at_feed, -⟩ := feed?_eq_some.mp found
  have programs : c.programs.setIfInBounds feed.program (f p feed.buffer).1 =
      c.programs.modify feed.program fun _ => (f p feed.buffer).1 := by
    refine Array.ext_getElem? fun other => ?_
    rw [Array.getElem?_setIfInBounds, Array.getElem?_modify]
    split
    next same =>
      rw [← same]
      split
      next lt => rw [Array.getElem?_eq_getElem lt, Option.map_some]
      next out => rw [Array.getElem?_eq_none (by omega), Option.map_none]
    next => rfl
  have feeds : c.feeds.setIfInBounds number { feed with buffer := (f p feed.buffer).2 } =
      c.feeds.modify number fun at_ => { at_ with buffer := (f p feed.buffer).2 } := by
    have lt := (Array.getElem?_eq_some_iff.mp at_feed).1
    refine Array.ext_getElem? fun other => ?_
    rw [Array.getElem?_setIfInBounds, Array.getElem?_modify]
    split
    next same => rw [← same, at_feed, Option.map_some]
    next => rfl
  unfold Controller.onFeed Controller.onProgram Controller.onBuffer
  rw [found]
  dsimp only
  rw [programs, feeds]

/-- A feed has only a program and a buffer. -/
theorem onFeed_eq (c : Controller) (number : Nat) (f : Program → Buffer → Program × Buffer) :
    c.onFeed number f = { c with
      programs := (c.onFeed number f).programs
      feeds := (c.onFeed number f).feeds } := by
  unfold onFeed
  split <;> rfl

@[simp] theorem size_feeds_onFeed (c : Controller) (number : Nat)
    (f : Program → Buffer → Program × Buffer) :
    (c.onFeed number f).feeds.size = c.feeds.size := by
  unfold onFeed
  split
  · rfl
  · exact Array.size_setIfInBounds

/-- Whatever a program and the buffer of a feed do together, if nothing of
what is delivered is lost. -/
theorem Fed.onFeed (h : Fed c) (number : Nat) {f : Program → Buffer → Program × Buffer}
    (keeps : ∀ p b, p.Sound → b.Sound p.commands →
      (f p b).1.Sound ∧ (f p b).1.commands = p.commands ∧ (f p b).2.Sound p.commands ∧
        ∀ taken, b.Delivers p.commands taken → (f p b).2.Delivers p.commands taken) :
    Fed (c.onFeed number f) ∧ Advances c (c.onFeed number f) := by
  cases found : c.feed? number with
  | none =>
    unfold Controller.onFeed
    rw [found]
    exact ⟨h, .refl c⟩
  | some reader =>
    obtain ⟨feed, p⟩ := reader
    obtain ⟨at_feed, at_program⟩ := feed?_eq_some.mp found
    have own : c.reads? number = some (p.commands, feed.buffer) :=
      reads?_eq_some.mpr ⟨feed, p, at_feed, at_program, rfl, rfl⟩
    obtain ⟨sound, commands, buffer, delivers⟩ := keeps p feed.buffer
      (h.programs p (Array.mem_of_getElem? at_program)) (h.buffers _ _ _ own)
    obtain ⟨fed, reads⟩ := h.onProgram feed.program (f := fun _ => (f p feed.buffer).1)
      fun q at_q _ => by
        obtain rfl := Option.some.inj (at_program.symm.trans at_q)
        exact ⟨sound, commands⟩
    rw [onFeed_of_feed? found]
    refine ⟨(fed.onBuffer number fun commands b at_own => ?_).1, fun other commands b before => ?_⟩
    · rw [reads, own] at at_own
      obtain ⟨rfl, rfl⟩ := Prod.mk.inj (Option.some.inj at_own)
      exact buffer
    · rw [reads?_onBuffer, reads, before]
      refine ⟨_, rfl, ?_⟩
      split
      next same =>
        rw [← same, own] at before
        obtain ⟨rfl, rfl⟩ := Prod.mk.inj (Option.some.inj before)
        exact delivers
      next => exact fun _ delivers => delivers

/-- A feed more that reads a program that is there. -/
theorem Fed.addFeed (h : Fed c) {program : Nat} {p : Program}
    (found : c.programs[program]? = some p) (settings : BufferSettings) :
    Fed { c with feeds := c.feeds.push { program, buffer := { settings } } } ∧
      SameCommands c { c with feeds := c.feeds.push { program, buffer := { settings } } } := by
  have reads (feed : Nat) :
      reads? { c with feeds := c.feeds.push { program, buffer := { settings } } } feed =
        if feed = c.feeds.size then some (p.commands, { settings }) else c.reads? feed := by
    unfold reads? feed?
    dsimp only
    rw [Array.getElem?_push]
    split
    · simp [found]
    · rfl
  refine ⟨⟨h.programs, fun feed lt => ?_, fun feed commands b after => ?_⟩,
    fun feed commands b before => ⟨b, ?_⟩⟩
  · rw [reads]
    split
    · exact ⟨_, _, rfl⟩
    · exact h.reads feed (by simp at lt; omega)
  · rw [reads] at after
    split at after
    · obtain ⟨rfl, rfl⟩ := Prod.mk.inj (Option.some.inj after)
      exact .fresh _ settings
    · exact h.buffers _ _ _ after
  · obtain ⟨f, -, at_feed, -⟩ := reads?_eq_some.mp before
    have lt := (Array.getElem?_eq_some_iff.mp at_feed).1
    rw [reads, if_neg (by omega), before]

/-! ## Work in the background -/

/-- A step of any producer, whichever run it works for. -/
theorem Fed.stepProducer (h : Fed c) (feed number : Nat) :
    Fed (c.stepProducer feed number) ∧ Advances c (c.stepProducer feed number) := by
  refine h.onFeed feed fun p b sound buffer => ?_
  obtain ⟨⟨sound', same⟩, buffer', delivers, -⟩ := buffer.stepProducer sound rfl c.now number
  exact ⟨sound', Program.commands_of_medium same.medium, buffer', delivers⟩

/-- What goes on in a program does not concern the feeds. -/
theorem Fed.advances_onProgram (h : Fed c) (number : Nat) {f : Program → Program}
    (keeps : ∀ p, p.Sound → (f p).Sound ∧ (f p).file.medium = p.file.medium) :
    Fed (c.onProgram number f) ∧ Advances c (c.onProgram number f) := by
  obtain ⟨fed, reads⟩ := h.onProgram number fun p _ sound =>
    ⟨(keeps p sound).1, Program.commands_of_medium (keeps p sound).2⟩
  refine ⟨fed, ?_⟩
  unfold Advances
  rw [reads]
  exact Advances.refl c

/-! ## Loading -/

theorem stopLoaded_eq (c : Controller) : c.stopLoaded = { c with feeds := c.stopLoaded.feeds } := by
  unfold stopLoaded
  split <;> rfl

@[simp] theorem size_feeds_stopLoaded (c : Controller) :
    c.stopLoaded.feeds.size = c.feeds.size := by
  unfold stopLoaded
  split
  · exact Array.size_modify
  · rfl

theorem Fed.stopLoaded (h : Fed c) : Fed c.stopLoaded ∧ SameCommands c c.stopLoaded := by
  unfold Controller.stopLoaded
  split
  next feed _ => exact h.onBuffer feed fun commands b reads => (h.buffers feed commands b reads).stop
  next => exact ⟨h, (Advances.refl c).sameCommands⟩

theorem closeReplaced_eq (c : Controller) (program : Nat) :
    c.closeReplaced program = { c with programs := (c.closeReplaced program).programs } := by
  unfold closeReplaced
  split
  · split <;> rfl
  · rfl

@[simp] theorem size_programs_closeReplaced (c : Controller) (program : Nat) :
    (c.closeReplaced program).programs.size = c.programs.size := by
  unfold closeReplaced
  split
  · split
    · rfl
    · exact Array.size_modify
  · rfl

theorem Fed.closeReplaced (h : Fed c) (program : Nat) :
    Fed (c.closeReplaced program) ∧ SameCommands c (c.closeReplaced program) := by
  unfold Controller.closeReplaced
  split
  · split
    · exact ⟨h, (Advances.refl c).sameCommands⟩
    · obtain ⟨fed, advances⟩ := h.advances_onProgram _ fun p sound => sound.close
      exact ⟨fed, advances.sameCommands⟩
  · exact ⟨h, (Advances.refl c).sameCommands⟩

end

end GcodeJob.Controller
