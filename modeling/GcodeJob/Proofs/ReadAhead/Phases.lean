import GcodeJob.Proofs.ReadAhead.Buffer

/-!
# GcodeJob.Proofs.ReadAhead.Phases

A buffer between any two sections of the calls on it.  What the sections gone
through leave open is one of four phases, and in each of them at most one
producer is live, the one of the run that is on (`Buffer.Coherent`).  Each
section leads from a phase to the next, and the steps of producers, of this run
or of any before, leave the phase as it is.
-/

namespace GcodeJob

/-! ## What a producer can do -/

/-- Whether room in the queue was found and has not been used yet. -/
def ProducerPoint.hasRoom : ProducerPoint → Bool
  | .locating | .fetching _ | .delivering .. => true
  | _ => false

namespace Producer

/-- All that a step of a producer can do, live or not: it turns to something
else, hands over a command, or records how its run ended. -/
inductive Acts (settings : BufferSettings) (s : Shared) (w : Producer) : Shared × Producer → Prop
  | turns (program : Program) (point : ProducerPoint) (there : w.point = .gone → point = .gone)
      (room : point.hasRoom = true →
        w.point.hasRoom = true ∨ s.queue.items.length < settings.capacity) :
    Acts settings s w (⟨program, s.queue⟩, { w with point })
  | delivers (position : Nat) (held : Issued) (point : ProducerPoint) (live : w.IsLive)
      (room : w.point.hasRoom = true) (there : point ≠ .gone) (used : point.hasRoom = false) :
    Acts settings s w (⟨s.program, s.queue.deliver position held⟩, { w with point })
  | concludes (outcome : Stage) :
    Acts settings s w (⟨s.program, s.queue.conclude w.run outcome⟩, { w with point := .gone })

theorem acts_step (settings : BufferSettings) (now : Nat) (s : Shared) (w : Producer) :
    Acts settings s w (w.step settings now s) := by
  obtain ⟨run, cancelled, point⟩ := w
  have turns {before point : ProducerPoint} (program : Program) (there : before ≠ .gone)
      (used : point.hasRoom = false) :
      Acts settings s ⟨run, cancelled, before⟩ (⟨program, s.queue⟩, ⟨run, cancelled, point⟩) :=
    .turns program point (fun gone => absurd gone there) (by simp [used])
  cases point with
  | checking => cases cancelled <;> exact turns s.program (by simp) rfl
  | sourcing =>
    unfold step
    dsimp only
    cases s.program.state with
    | built | building | failed | closed => exact turns s.program (by simp) rfl
  | measuring =>
    unfold step
    dsimp only
    split
    next => exact turns s.program (by simp) rfl
    next room => exact .turns s.program _ (by simp) fun _ => .inr (Nat.lt_of_not_le room)
  | locating => exact .turns s.program _ (by simp) fun _ => .inl rfl
  | fetching position =>
    unfold step
    dsimp only
    generalize s.program.getCommand position = reply
    obtain ⟨_ | _ | held, program⟩ := reply
    · exact turns program (by simp) rfl
    · exact turns program (by simp) rfl
    · exact .turns program _ (by simp) fun _ => .inl rfl
  | delivering position held =>
    unfold step
    cases cancelled with
    | true => exact turns s.program (by simp) rfl
    | false =>
      refine .delivers position held _ ⟨rfl, by simp⟩ rfl ?_ ?_
      all_goals cases held.command.isExecutable <;> simp [ProducerPoint.hasRoom]
  | resting moment =>
    unfold step
    dsimp only
    split <;> exact turns s.program (by simp) rfl
  | leaving outcome => exact .concludes outcome
  | gone => exact .turns s.program _ id fun room => .inl room

/-- No step of a producer makes the run another. -/
theorem Acts.queue_run {settings : BufferSettings} {s : Shared} {w : Producer}
    {after : Shared × Producer} (acts : Acts settings s w after) :
    after.1.queue.run = s.queue.run := by
  cases acts with
  | turns | delivers => rfl
  | concludes outcome =>
    unfold Queue.conclude
    split <;> rfl

end Producer

/-! ## The phases of a buffer -/

/-- What the sections that have been gone through leave open. -/
inductive Phase
  | calm
  /-- A run has begun and has no producer yet. -/
  | spawning
  /-- A producer is on its way and its token is not kept yet. -/
  | keeping
  /-- A token has been cancelled, and what is queued is not dropped yet. -/
  | dropping
  deriving DecidableEq

/-- What is in an array after one entry has been replaced. -/
theorem eq_or_of_getElem?_setIfInBounds {α : Type} {entries : Array α} {number n : Nat}
    {entry e : α} (found : (entries.setIfInBounds number entry)[n]? = some e) :
    n = number ∧ e = entry ∨ n ≠ number ∧ entries[n]? = some e := by
  rw [Array.getElem?_setIfInBounds] at found
  split at found
  next eq =>
    split at found
    · exact .inl ⟨eq.symm, (Option.some.inj found).symm⟩
    · cases found
  next ne => exact .inr ⟨Ne.symm ne, found⟩

namespace Buffer

/-- A buffer in a phase.  Only the producer of the run that is on is live, and
its token is kept, or about to be. -/
structure Coherent (phase : Phase) (b : Buffer) : Prop where
  run : ∀ (number : Nat) (w : Producer), b.producers[number]? = some w → w.run = number + 1
  size : b.queue.run = b.producers.size + if phase = .spawning then 1 else 0
  spawning : phase = .spawning → b.queue.stage = .running
  token_le : ∀ run, b.token? = some run → run ≤ b.queue.run
  live : ∀ (number : Nat) (w : Producer), b.producers[number]? = some w → w.IsLive →
    w.run = b.queue.run ∧ b.queue.stage = .running ∧ phase ≠ .dropping ∧
      (b.token? = some w.run ∨ phase = .keeping)

namespace Coherent
variable {b : Buffer} {phase : Phase}

theorem fresh (settings : BufferSettings) : Coherent .calm { settings } where
  run := by simp
  size := rfl
  spawning := nofun
  token_le := nofun
  live := by simp

/-- Two live producers are one. -/
theorem eq_of_isLive (h : b.Coherent phase) {m n : Nat} {v w : Producer}
    (found_v : b.producers[m]? = some v) (found_w : b.producers[n]? = some w) (live_v : v.IsLive)
    (live_w : w.IsLive) : m = n := by
  have run_v := (h.live m v found_v live_v).1
  have run_w := (h.live n w found_w live_w).1
  rw [h.run m v found_v] at run_v
  rw [h.run n w found_w] at run_w
  omega

/-- A run that begins finds no live producer. -/
theorem begin (h : b.Coherent .calm) (off : b.queue.stage ≠ .running) :
    Coherent .spawning { b with queue := b.queue.begin } where
  run := h.run
  size := congrArg (· + 1) h.size
  spawning := fun _ => rfl
  token_le := fun run kept => Nat.le_succ_of_le (h.token_le run kept)
  live := fun number w found live => absurd (h.live number w found live).2.1 off

/-- While its run has no producer, no producer is live. -/
theorem not_isLive_of_spawning (h : b.Coherent .spawning) {number : Nat} {w : Producer}
    (found : b.producers[number]? = some w) : ¬w.IsLive := by
  intro live
  have run := (h.live number w found live).1
  have lt := (Array.getElem?_eq_some_iff.mp found).1
  have size : b.queue.run = b.producers.size + 1 := h.size
  rw [h.run number w found] at run
  omega

/-- A producer more, of the run just begun. -/
theorem getElem?_push_run (h : b.Coherent .spawning) {point : ProducerPoint} {number : Nat}
    {w : Producer}
    (found : (b.producers.push { run := b.queue.run, point := point })[number]? = some w) :
    w.run = number + 1 ∧ (w.IsLive → w.run = b.queue.run ∧ w.point = point) := by
  rw [Array.getElem?_push] at found
  split at found
  next last =>
    obtain rfl := Option.some.inj found
    exact ⟨last ▸ h.size, fun _ => ⟨rfl, rfl⟩⟩
  next => exact ⟨h.run number w found, fun live => absurd live (h.not_isLive_of_spawning found)⟩

theorem spawn (h : b.Coherent .spawning) : b.spawn.Coherent .keeping where
  run := fun _ _ found => (h.getElem?_push_run found).1
  size := by simpa [Buffer.spawn] using h.size
  spawning := nofun
  token_le := h.token_le
  live := fun _ _ found live =>
    ⟨((h.getElem?_push_run found).2 live).1, h.spawning rfl, nofun, .inr rfl⟩

theorem abandon (h : b.Coherent .spawning) : b.abandon.Coherent .calm where
  run := fun _ _ found => (h.getElem?_push_run found).1
  size := by simpa [Buffer.abandon] using h.size
  spawning := nofun
  token_le := h.token_le
  live := fun _ _ found live => absurd ((h.getElem?_push_run found).2 live).2 live.2

theorem keepToken (h : b.Coherent .keeping) : b.keepToken.Coherent .calm where
  run := h.run
  size := h.size
  spawning := nofun
  token_le := fun _ kept => Nat.le_of_eq (Option.some.inj kept).symm
  live := fun number w found live =>
    have ⟨run, on, _⟩ := h.live number w found live
    ⟨run, on, nofun, .inl (congrArg some run.symm)⟩

/-- Once the kept token is cancelled, no producer is live. -/
theorem cancelToken (h : b.Coherent phase) (free : phase = .calm ∨ phase = .dropping) :
    b.cancelToken.Coherent .dropping := by
  have off : phase ≠ .spawning ∧ phase ≠ .keeping := by rcases free with rfl | rfl <;> simp
  have size : b.queue.run = b.producers.size := by simpa [off.1] using h.size
  refine ⟨fun number w found => ?_, by simpa [Buffer.cancelToken] using size, nofun, nofun,
    fun number w found live => ?_⟩
  all_goals
    simp only [Buffer.cancelToken, Array.getElem?_map, Option.map_eq_some_iff] at found
    obtain ⟨before, found, rfl⟩ := found
  · have run := h.run number before found
    split <;> exact run
  · split at live
    next => cases live.1
    next other => exact absurd ((h.live number before found live).2.2.2.resolve_right off.2) other

/-- What is dropped belongs to nobody any more. -/
theorem discard (h : b.Coherent .dropping) : b.discard.Coherent .dropping where
  run := h.run
  size := h.size
  spawning := nofun
  token_le := h.token_le
  live := fun number w found live => absurd rfl (h.live number w found live).2.2.1

theorem calm_of_dropping (h : b.Coherent .dropping) : b.Coherent .calm where
  run := h.run
  size := h.size
  spawning := nofun
  token_le := h.token_le
  live := fun number w found live => absurd rfl (h.live number w found live).2.2.1

theorem stop (h : b.Coherent .calm) : b.stop.Coherent .calm :=
  (h.cancelToken (.inl rfl)).discard.calm_of_dropping

theorem start {b' : Buffer} {source? : Option IndexState} (h : b.Coherent .calm)
    (eq : b.start source? = .ok b') : b'.Coherent .calm := by
  obtain ⟨off, rfl⟩ := start_eq_ok eq
  exact (h.begin off).spawn.keepToken

theorem startThreadless (h : b.Coherent .calm) (source? : Option IndexState) :
    (b.startThreadless source?).Coherent .calm := by
  rcases b.startThreadless_cases source? with same | ⟨off, begun⟩
  · rwa [same]
  · rw [begun]
    exact (h.begin off).abandon

theorem next (h : b.Coherent phase) : b.next.2.Coherent phase := by
  rw [next_eq]
  exact ⟨h.run, h.size, h.spawning, h.token_le, h.live⟩

/-- A producer of a run that is over changes nothing. -/
theorem queue_step_of_ne (h : b.Coherent phase) {number : Nat} {w : Producer}
    (found : b.producers[number]? = some w) (other : w.run ≠ b.queue.run) (now : Nat)
    (p : Program) :
    (w.step b.settings now ⟨p, b.queue⟩).1.queue = b.queue := by
  have acts := w.acts_step b.settings now ⟨p, b.queue⟩
  generalize w.step b.settings now ⟨p, b.queue⟩ = after at acts
  cases acts with
  | turns => rfl
  | delivers _ _ _ live => exact absurd (h.live number w found live).1 other
  | concludes outcome => exact Queue.conclude_of_ne outcome (Ne.symm other)

/-- While no run is on, no producer changes anything. -/
theorem queue_stepProducer (h : b.Coherent phase) (off : b.queue.stage ≠ .running) (now : Nat)
    (p : Program) (number : Nat) : (b.stepProducer now p number).2.queue = b.queue := by
  unfold Buffer.stepProducer
  cases found : b.producers[number]? with
  | none => rfl
  | some w =>
    have acts := w.acts_step b.settings now ⟨p, b.queue⟩
    dsimp only
    generalize w.step b.settings now ⟨p, b.queue⟩ = after at acts
    cases acts with
    | turns => rfl
    | delivers _ _ _ live => exact absurd (h.live number w found live).2.1 off
    | concludes outcome => exact if_neg fun on => off on.2

/-- One producer changed, and the queue by it.  Only a producer that is live, or
whose run is on, can change its stage. -/
theorem setProducer (h : b.Coherent phase) {q : Queue} {number : Nat} {w w' : Producer}
    (found : b.producers[number]? = some w) (same : w'.run = w.run) (run : q.run = b.queue.run)
    (live : w'.IsLive → w.IsLive ∧ q.stage = b.queue.stage)
    (stage : w.run ≠ b.queue.run → q.stage = b.queue.stage) :
    Coherent phase { b with queue := q, producers := b.producers.setIfInBounds number w' } := by
  have own := h.run number w found
  refine ⟨fun n v found' => ?_, by simpa [run] using h.size, fun begun => ?_,
    by simpa [run] using h.token_le, fun n v found' live' => ?_⟩
  · rcases eq_or_of_getElem?_setIfInBounds found' with ⟨rfl, rfl⟩ | ⟨-, found'⟩
    · exact same.trans own
    · exact h.run n v found'
  · have size : b.queue.run = b.producers.size + 1 := by simpa [begun] using h.size
    have lt := (Array.getElem?_eq_some_iff.mp found).1
    exact (stage (by omega)).trans (h.spawning begun)
  · rcases eq_or_of_getElem?_setIfInBounds found' with ⟨rfl, rfl⟩ | ⟨ne, found'⟩
    · obtain ⟨live, same_stage⟩ := live live'
      obtain ⟨at_run, on, rest⟩ := h.live n w found live
      exact ⟨(same.trans at_run).trans run.symm, same_stage.trans on, same ▸ rest⟩
    · obtain ⟨at_run, on, rest⟩ := h.live n v found' live'
      have other : w.run ≠ b.queue.run := by
        have := h.run n v found'
        omega
      exact ⟨at_run.trans run.symm, (stage other).trans on, rest⟩

/-- A step of any producer leaves the phase as it is. -/
theorem stepProducer (h : b.Coherent phase) (now : Nat) (p : Program) (number : Nat) :
    (b.stepProducer now p number).2.Coherent phase := by
  unfold Buffer.stepProducer
  cases found : b.producers[number]? with
  | none => exact h
  | some w =>
    have acts := w.acts_step b.settings now ⟨p, b.queue⟩
    have run := acts.queue_run
    dsimp only
    generalize w.step b.settings now ⟨p, b.queue⟩ = after at acts run
    cases acts with
    | turns program point there =>
      exact h.setProducer found rfl run
        (fun live => ⟨⟨live.1, fun gone => live.2 (there gone)⟩, rfl⟩) fun _ => rfl
    | delivers position held point live =>
      exact h.setProducer found rfl run (fun _ => ⟨live, rfl⟩) fun _ => rfl
    | concludes outcome =>
      have gone : ¬Producer.IsLive { w with point := .gone } := fun live => live.2 rfl
      refine h.setProducer found rfl run (fun live => absurd live gone) fun other => ?_
      rw [Queue.conclude_of_ne outcome (Ne.symm other)]

end Coherent

end Buffer

end GcodeJob
