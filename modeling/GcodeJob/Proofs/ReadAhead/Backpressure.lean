import GcodeJob.Proofs.ReadAhead.Traffic

/-!
# GcodeJob.Proofs.ReadAhead.Backpressure

The queue never outgrows its capacity.  A producer looks for room in one
section and hands its command over in a later one, with a file read in between.
Room once found stays: only the one live producer may queue anything, and all
others only take from the queue or drop it (`Buffer.Bounded`).

**Main result** (`Traffic.length_items_le`).
-/

namespace GcodeJob

namespace Buffer

/-- The queue is within its capacity, and short of it while a live producer
relies on the room that it has found. -/
structure Bounded (b : Buffer) : Prop where
  length : b.queue.items.length ≤ b.settings.capacity
  room : ∀ (number : Nat) (w : Producer), b.producers[number]? = some w → w.IsLive →
    w.point.hasRoom = true → b.queue.items.length < b.settings.capacity

namespace Bounded
variable {b : Buffer} {phase : Phase}

theorem fresh (settings : BufferSettings) : Bounded { settings } where
  length := Nat.zero_le _
  room := by simp

/-- A queue that has not grown, with no more producers that rely on room. -/
theorem of_le (h : b.Bounded) {b' : Buffer} (settings : b'.settings = b.settings)
    (le : b'.queue.items.length ≤ b.queue.items.length)
    (fewer : ∀ (number : Nat) (w : Producer), b'.producers[number]? = some w → w.IsLive →
      w.point.hasRoom = true → b.producers[number]? = some w) : b'.Bounded where
  length := by
    rw [settings]
    exact Nat.le_trans le h.length
  room := by
    intro number w found live room
    rw [settings]
    exact Nat.lt_of_le_of_lt le (h.room number w (fewer number w found live room) live room)

theorem begin (h : b.Bounded) : Bounded { b with queue := b.queue.begin } :=
  h.of_le rfl (Nat.zero_le _) fun _ _ found _ _ => found

theorem discard (h : b.Bounded) : b.discard.Bounded :=
  h.of_le rfl (Nat.zero_le _) fun _ _ found _ _ => found

/-- A producer that has not looked for room is one more that does not rely on any. -/
theorem push (h : b.Bounded) {q : Queue} (items : q.items = b.queue.items) {new : Producer}
    (unused : new.point.hasRoom = false) :
    Bounded { b with queue := q, producers := b.producers.push new } := by
  refine h.of_le rfl (by simp [items]) fun number w found live room => ?_
  rw [Array.getElem?_push] at found
  split at found
  · obtain rfl := Option.some.inj found
    simp [unused] at room
  · exact found

theorem spawn (h : b.Bounded) : b.spawn.Bounded := h.push rfl rfl

theorem abandon (h : b.Bounded) : b.abandon.Bounded :=
  h.push (q := { b.queue with stage := .failed }) rfl rfl

theorem cancelToken (h : b.Bounded) : b.cancelToken.Bounded := by
  refine h.of_le rfl Nat.le.refl fun number w found live _ => ?_
  simp only [Buffer.cancelToken, Array.getElem?_map, Option.map_eq_some_iff] at found
  obtain ⟨before, found, rfl⟩ := found
  split at live
  · cases live.1
  next other => rwa [if_neg other]

theorem next (h : b.Bounded) : b.next.2.Bounded := by
  have gives := b.next_spec
  rw [next_eq]
  refine h.of_le rfl ?_ fun _ _ found _ _ => found
  split at gives
  next => simp [gives.2.1]
  next => simp [gives.2.1]
  next => simp [gives.1]

/-- One producer changed, and the queue by it. -/
theorem setProducer {q : Queue} {number : Nat} {w : Producer}
    (le : q.items.length ≤ b.settings.capacity)
    (own : w.IsLive → w.point.hasRoom = true → q.items.length < b.settings.capacity)
    (others : ∀ n v, n ≠ number → b.producers[n]? = some v → v.IsLive → v.point.hasRoom = true →
      q.items.length < b.settings.capacity) :
    Bounded { b with queue := q, producers := b.producers.setIfInBounds number w } := by
  refine ⟨le, fun n v found live room => ?_⟩
  rcases eq_or_of_getElem?_setIfInBounds found with ⟨-, rfl⟩ | ⟨ne, found⟩
  · exact own live room
  · exact others n v ne found live room

/-- Whoever queues a command has found room for it, and nobody else has. -/
theorem stepProducer (h : b.Bounded) (coherent : b.Coherent phase) (now : Nat) (p : Program)
    (number : Nat) : (b.stepProducer now p number).2.Bounded := by
  unfold Buffer.stepProducer
  cases found : b.producers[number]? with
  | none => exact h
  | some w =>
    have acts := w.acts_step b.settings now ⟨p, b.queue⟩
    dsimp only
    generalize w.step b.settings now ⟨p, b.queue⟩ = after at acts
    cases acts with
    | turns program point there used =>
      refine setProducer h.length (fun live room => ?_) fun n v _ => h.room n v
      rcases used room with before | found_room
      · exact h.room number w found ⟨live.1, fun gone => live.2 (there gone)⟩ before
      · exact found_room
    | delivers position held point live room there used =>
      have lt := h.room number w found live room
      refine setProducer ?_ (fun _ room' => by simp [used] at room') fun n v ne found' live' => ?_
      · unfold Queue.deliver
        dsimp only
        split
        · simpa using Nat.succ_le_of_lt lt
        · exact h.length
      · exact absurd (coherent.eq_of_isLive found' found live' live) ne
    | concludes outcome =>
      have same := Queue.items_conclude b.queue w.run outcome
      refine setProducer (same ▸ h.length) (fun live => absurd rfl live.2) fun n v _ => ?_
      rw [same]
      exact h.room n v

end Bounded

end Buffer

namespace Traffic

section
variable {s : Traffic}

theorem bounded_advance (h : s.buffer.Bounded) (number : Nat) (spawns : Bool) :
    (s.advance number spawns).buffer.Bounded := by
  have advances := s.advances_advance number spawns
  generalize s.advance number spawns = t at advances
  cases advances with
  | waits | checks | refused => exact h
  | begins => exact h.begin
  | spawns => exact h.spawn
  | abandons => exact h.abandon
  | keeps => exact h.of_le rfl Nat.le.refl fun _ _ found _ _ => found
  | cancels => exact h.cancelToken
  | discards => exact h.discard

theorem bounded_step (h : s.buffer.Bounded) (guarded : s.Guarded) (e : Event) :
    (s.step e).buffer.Bounded := by
  cases e with
  | start | stop | change => exact h
  | advance call spawns => exact bounded_advance h call spawns
  | next => exact h.next
  | produce number now =>
    obtain ⟨phase, -, coherent⟩ := guarded
    exact h.stepProducer coherent now s.program number

theorem bounded_run (h : s.buffer.Bounded) (guarded : s.Guarded) {events : List Event}
    (apart : s.Throughout Apart events) : (s.run events).buffer.Bounded := by
  induction events generalizing s with
  | nil => exact h
  | cons e events ih => exact ih (bounded_step h guarded e) (guarded.step apart.1) apart.2

theorem settings_step (s : Traffic) (e : Event) :
    (s.step e).buffer.settings = s.buffer.settings := by
  cases e with
  | start | stop | change | next => rfl
  | advance call spawns =>
    have advances := s.advances_advance call spawns
    unfold step
    dsimp only
    generalize s.advance call spawns = t at advances
    cases advances <;> rfl
  | produce number now =>
    unfold step Buffer.stepProducer
    dsimp only
    cases s.buffer.producers[number]? <;> rfl

theorem settings_run (s : Traffic) (events : List Event) :
    (s.run events).buffer.settings = s.buffer.settings := by
  induction events generalizing s with
  | nil => rfl
  | cons e events ih => exact (ih (s.step e)).trans (s.settings_step e)

end

/-- **The queue never holds more than its capacity**, whatever the capacity and
the program are, whatever calls are made one after another, and however the
producers of this run and of those before it come in between. -/
theorem length_items_le (path : String) (medium : Medium) (stream : StreamSettings)
    (settings : BufferSettings) (events : List Event)
    (alone : (opened path medium stream settings).Throughout Alone events) :
    ((opened path medium stream settings).run events).buffer.queue.items.length ≤
      settings.capacity := by
  have apart := (inTurn_opened path medium stream settings).throughout_apart alone
  have guarded := guarded_opened path medium stream settings
  have bounded := bounded_run (.fresh settings) guarded apart
  have within := bounded.length
  rwa [settings_run] at within

/-- Room for one command, a taking that makes that room again, and a producer
that has found it when its run is stopped and the next one begun. -/
theorem length_items_le_of_one :
    let file : RegularFile := ⟨⟨#[71, 49, 10, 71, 50, 10]⟩, by decide, .whole⟩
    let settings : BufferSettings := { capacity := 1 }
    let fresh := opened "job" (.file file) ⟨9, 1⟩ settings
    let built := [.readChunk, .takeChunk, .readChunk, .takeChunk].map Event.change
    let advance (call count : Nat) : List Event := List.replicate count (.advance call true)
    let work (number count : Nat) : List Event :=
      (List.range count).map fun second => .produce number (second * 1000000000)
    let events := built ++ [.start] ++ advance 0 4 ++ work 0 9 ++ [.next] ++ work 0 6 ++ [.stop] ++
      advance 1 2 ++ [.start] ++ advance 2 4 ++ work 1 5 ++ work 0 2 ++ work 1 9
    let s := fresh.run events
    fresh.Throughout Alone events ∧ s.buffer.queue.items.map Issued.line = [0] ∧
      s.buffer.queue.items.length ≤ settings.capacity := by
  intro file settings fresh built advance work events s
  have alone : fresh.Throughout Alone events := by decide +kernel
  have queued : s.buffer.queue.items.map Issued.line = [0] := by decide +kernel
  have within := length_items_le "job" (.file file) ⟨9, 1⟩ settings events alone
  have at_s : (opened "job" (.file file) ⟨9, 1⟩ settings).run events = s := rfl
  rw [at_s] at within
  exact ⟨alone, queued, within⟩

end Traffic

end GcodeJob
