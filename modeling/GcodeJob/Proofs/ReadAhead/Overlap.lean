import GcodeJob.Proofs.ReadAhead.Traffic

/-!
# GcodeJob.Proofs.ReadAhead.Overlap

Starts and stops that overlap.  Any number of calls may be under way, each
between any two of its sections.

**Main result** (`Traffic.one_producer_of_apart`): whenever no call is under
way, at most one producer is live, its token is the one that is kept, and its
run is on; and nothing is queued behind a stop.  This takes that no run begins
between the two sections of a stop.  The token's lock does not see to that: a
stop has given it back before it drops the queue, and then ends a run whose
producer it has not cancelled (`Traffic.orphan_of_overlap`).
-/

namespace GcodeJob.Traffic

/-- **At most one producer is live, and its token is kept.**  However starts
and stops overlap, but that no run begins between the two sections of a stop:
while no call is under way, a producer that has not exited and whose token has
not been cancelled is the only one, the kept token is its own, and its run is
the one that is on; and once a stop has returned with no start under way,
nothing is queued until somebody calls for a start. -/
theorem one_producer_of_apart (path : String) (medium : Medium) (stream : StreamSettings)
    (settings : BufferSettings) (events : List Event)
    (apart : (opened path medium stream settings).Throughout Apart events) :
    let s := (opened path medium stream settings).run events
    ((∀ call ∈ s.calls, call = .returned) →
      (∀ (m n : Nat) (v w : Producer), s.buffer.producers[m]? = some v →
        s.buffer.producers[n]? = some w → v.IsLive → w.IsLive → m = n) ∧
      ∀ (number : Nat) (w : Producer), s.buffer.producers[number]? = some w → w.IsLive →
        s.buffer.token? = some w.run ∧ s.buffer.queue.run = w.run ∧
          s.buffer.queue.stage = .running) ∧
      ∀ (call : Nat) (spawns : Bool) (later : List Event), s.calls[call]? = some .discarding →
        (∀ other ∈ s.calls, other.isStart = false) → .start ∉ later →
        ((s.advance call spawns).run later).buffer.queue.items = [] := by
  intro s
  have guarded : s.Guarded := (guarded_opened path medium stream settings).run apart
  refine ⟨fun returned => ?_, fun call spawns later at_ none others => ?_⟩
  · obtain ⟨phase, stands, coherent⟩ := guarded
    refine ⟨fun m n v w found_v found_w => coherent.eq_of_isLive found_v found_w,
      fun number w found live => ?_⟩
    obtain ⟨run, on, -, kept⟩ := coherent.live number w found live
    refine ⟨kept.resolve_right ?_, run.symm, on⟩
    -- A token that is not kept yet is about to be, by a call that is under way.
    rintro rfl
    obtain ⟨n, -, at_⟩ := stands.holder
    cases returned _ (Array.mem_of_getElem? at_)
  · exact ((Still.of_discarding guarded at_ none spawns).run others).items

/-- Two starts that overlap, the second of which waits for the lock, and then two
stops that overlap. -/
theorem one_producer_of_two_starts :
    let file : RegularFile := ⟨⟨#[71, 49, 10, 71, 50, 10]⟩, by decide, .whole⟩
    let fresh := opened "job" (.file file) ⟨9, 1⟩ {}
    let built := [.readChunk, .takeChunk, .readChunk, .takeChunk].map Event.change
    let work : List Event := (List.range 9).map fun second => .produce 0 (second * 1000000000)
    let starts := built ++ [.start, .start, .advance 0 true, .advance 1 true, .advance 0 true,
      .advance 1 true, .advance 0 true, .advance 0 true, .advance 1 true]
    let stops := starts ++ work ++ [.stop, .stop, .advance 2 true, .advance 3 true, .advance 2 true]
    let s := fresh.run starts
    let t := fresh.run stops
    fresh.Throughout Apart starts ∧ fresh.Throughout Apart stops ∧
      (∀ call ∈ s.calls, call = .returned) ∧
      (∃ w, s.buffer.producers[0]? = some w ∧ w.IsLive ∧ s.buffer.token? = some w.run ∧
        s.buffer.queue.run = w.run ∧ s.buffer.queue.stage = .running) ∧
      t.calls[3]? = some .discarding ∧
      ((t.advance 3 true).run work).buffer.queue.items = [] := by
  intro file fresh built work starts stops s t
  have apart : fresh.Throughout Apart starts := by decide +kernel
  have apart' : fresh.Throughout Apart stops := by decide +kernel
  have returned : ∀ call ∈ s.calls, call = .returned := by decide +kernel
  have found : s.buffer.producers[0]? = some { run := 1 } := by decide +kernel
  have live : Producer.IsLive { run := 1 } := ⟨rfl, by simp⟩
  have at_ : t.calls[3]? = some .discarding := by decide +kernel
  have none : ∀ other ∈ t.calls, other.isStart = false := by decide +kernel
  have others : .start ∉ work := by simp [work]
  have at_s : (opened "job" (.file file) ⟨9, 1⟩ {}).run starts = s := rfl
  have at_t : (opened "job" (.file file) ⟨9, 1⟩ {}).run stops = t := rfl
  have first := one_producer_of_apart "job" (.file file) ⟨9, 1⟩ {} starts apart
  have second := one_producer_of_apart "job" (.file file) ⟨9, 1⟩ {} stops apart'
  dsimp only at first second
  rw [at_s] at first
  rw [at_t] at second
  -- From here on the two are any states of which this much is known.
  clear_value s t work
  exact ⟨apart, apart', returned, ⟨_, found, live, (first.1 returned).2 0 _ found live⟩, at_,
    second.2 3 true work at_ none others⟩

/-- A start that goes through between the two sections of a stop: when both have
returned, the producer is live in a run that counts as stopped, and queues the
first line.  A later start leaves it be, so two producers are live at once, and
the first line is queued twice. -/
theorem orphan_of_overlap :
    let file : RegularFile := ⟨⟨#[71, 49, 10, 71, 50, 10]⟩, by decide, .whole⟩
    let built := [.readChunk, .takeChunk, .readChunk, .takeChunk].map Event.change
    let advance (call count : Nat) : List Event := List.replicate count (.advance call true)
    let work (number count : Nat) : List Event :=
      (List.range count).map fun second => .produce number (second * 1000000000)
    let overlap := built ++ [.stop] ++ advance 0 1 ++ [.start] ++ advance 1 4 ++ advance 0 1
    let s := (opened "job" (.file file) ⟨9, 1⟩ {}).run overlap
    let t := s.run (work 0 6)
    let u := s.run ([.start] ++ advance 2 4 ++ work 0 5 ++ work 1 5 ++ work 0 2 ++ work 1 2)
    ((∀ call ∈ s.calls, call = .returned) ∧ s.buffer.producers = #[{ run := 1 }] ∧
        s.buffer.queue.stage = .stopped ∧ s.buffer.queue.items = []) ∧
      t.calls = s.calls ∧ t.buffer.queue.items.map Issued.line = [0] ∧
      (∀ call ∈ u.calls, call = .returned) ∧
      u.buffer.producers = #[{ run := 1 }, { run := 2 }] ∧ u.buffer.token? = some 2 ∧
      u.buffer.queue.items.map Issued.line = [0, 0] := by
  decide +kernel

end GcodeJob.Traffic
