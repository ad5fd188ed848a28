import GcodeJob.Proofs.ReadAhead.Phases
import GcodeJob.ReadAhead.Traffic

/-!
# GcodeJob.Proofs.ReadAhead.Traffic

What a buffer keeps while many call it.  The token's lock lets one start into
its locked part at a time, and as long as no run begins between the two
sections of a stop, the calls always stand as one phase of the buffer allows
(`Traffic.Guarded.run`).  Calls that do not overlap at all are a special case
(`Traffic.InTurn.throughout_apart`).  Behind a stop nothing happens until somebody
calls for a start (`Traffic.Still.run`).
-/

namespace GcodeJob

namespace Traffic

/-! ## What a call can do -/

/-- All that the next section of a call can do. -/
inductive Advances (s : Traffic) (number : Nat) : Traffic → Prop
  /-- There is no such section, or it waits for a lock. -/
  | waits : Advances s number s
  | checks (call : Call) (at_ : s.calls[number]? = some .checking)
      (next : call = .beginning ∨ call = .returned) : Advances s number (s.goTo number call)
  | refused (at_ : s.calls[number]? = some .beginning) : Advances s number (s.goTo number .returned)
  | begins (at_ : s.calls[number]? = some .beginning) (free : s.holder? = none)
      (off : s.buffer.queue.stage ≠ .running) :
    Advances s number ({ s with
      buffer := { s.buffer with queue := s.buffer.queue.begin }
      holder? := some number, given := [] }.goTo number .spawning)
  | spawns (at_ : s.calls[number]? = some .spawning) :
    Advances s number ({ s with buffer := s.buffer.spawn }.goTo number .keeping)
  | abandons (at_ : s.calls[number]? = some .spawning) :
    Advances s number ({ s with buffer := s.buffer.abandon, holder? := none }.goTo number .returned)
  | keeps (at_ : s.calls[number]? = some .keeping) :
    Advances s number
      ({ s with buffer := s.buffer.keepToken, holder? := none }.goTo number .returned)
  | cancels (at_ : s.calls[number]? = some .cancelling) (free : s.holder? = none) :
    Advances s number ({ s with buffer := s.buffer.cancelToken }.goTo number .discarding)
  | discards (at_ : s.calls[number]? = some .discarding) :
    Advances s number ({ s with buffer := s.buffer.discard }.goTo number .returned)

/-- A start begins its run if it finds the lock free and no run on. -/
theorem advance_of_beginning {s : Traffic} {number : Nat}
    (at_ : s.calls[number]? = some .beginning) (free : s.holder? = none)
    (off : s.buffer.queue.stage ≠ .running) (spawns : Bool) :
    s.advance number spawns = { s with
      buffer := { s.buffer with queue := s.buffer.queue.begin }
      holder? := some number, given := [] }.goTo number .spawning := by
  simp [advance, at_, free, Buffer.beginRun, off]

theorem advances_advance (s : Traffic) (number : Nat) (spawns : Bool) :
    s.Advances number (s.advance number spawns) := by
  cases at_ : s.calls[number]? with
  | none => simpa [advance, at_] using Advances.waits
  | some call =>
    cases call with
    | checking =>
      unfold advance
      rw [at_]
      dsimp only
      split
      · exact .checks _ at_ (.inl rfl)
      · exact .checks _ at_ (.inr rfl)
    | beginning =>
      cases free : s.holder? with
      | some holder => simpa [advance, at_, free] using Advances.waits
      | none =>
        by_cases on : s.buffer.queue.stage = .running
        · simpa [advance, at_, free, Buffer.beginRun, on] using Advances.refused at_
        · rw [advance_of_beginning at_ free on]
          exact .begins at_ free on
    | spawning =>
      cases spawns with
      | true => simpa [advance, at_] using Advances.spawns at_
      | false => simpa [advance, at_] using Advances.abandons at_
    | keeping => simpa [advance, at_] using Advances.keeps at_
    | cancelling =>
      cases free : s.holder? with
      | some holder => simpa [advance, at_, free] using Advances.waits
      | none => simpa [advance, at_, free] using Advances.cancels at_ free
    | discarding => simpa [advance, at_] using Advances.discards at_
    | returned => simpa [advance, at_] using Advances.waits

/-! ## Calls and the lock -/

/-- Where a call may stand in a phase, by who holds the token's lock. -/
def Fits (phase : Phase) (holder? : Option Nat) (number : Nat) : Call → Prop
  | .spawning => phase = .spawning ∧ holder? = some number
  | .keeping => phase = .keeping ∧ holder? = some number
  | .discarding => phase = .dropping
  | _ => holder? ≠ some number

/-- While one call moves on, the others fit as they did, if nobody else has the
lock before or after. -/
theorem Fits.of_ne {phase phase' : Phase} {holder? holder?' : Option Nat} {number n : Nat}
    {c : Call} (fits : Fits phase holder? n c) (ne : n ≠ number) (before : ∀ m ∈ holder?, m = number)
    (after : ∀ m ∈ holder?', m = number) (drops : phase = .dropping → phase' = .dropping) :
    Fits phase' holder?' n c := by
  cases c with
  | spawning | keeping => exact absurd (before n fits.2) ne
  | discarding => exact drops fits
  | checking | beginning | cancelling | returned => exact fun holder => ne (after n holder)

/-- Who holds the token's lock in a phase. -/
def Holds (s : Traffic) : Phase → Prop
  | .spawning => ∃ number, s.holder? = some number ∧ s.calls[number]? = some .spawning
  | .keeping => ∃ number, s.holder? = some number ∧ s.calls[number]? = some .keeping
  | .calm | .dropping => s.holder? = none

/-- The calls stand as they may in a phase. -/
structure Stands (phase : Phase) (s : Traffic) : Prop where
  calls : ∀ number call, s.calls[number]? = some call → Fits phase s.holder? number call
  holder : s.Holds phase

/-- The buffer is in a phase, and so are the calls. -/
def Guarded (s : Traffic) : Prop := ∃ phase, s.Stands phase ∧ s.buffer.Coherent phase

section
variable {s : Traffic} {phase : Phase}

theorem guarded_opened (path : String) (medium : Medium) (stream : StreamSettings)
    (settings : BufferSettings) : (opened path medium stream settings).Guarded :=
  ⟨.calm, ⟨by simp [opened], rfl⟩, .fresh settings⟩

namespace Stands

/-- Whoever holds the lock is a call. -/
theorem lt_of_holder? (h : s.Stands phase) {number : Nat} (holder : s.holder? = some number) :
    number < s.calls.size := by
  have holds := h.holder
  cases phase with
  | calm | dropping => simp [Holds, holder] at holds
  | spawning | keeping =>
    obtain ⟨n, holder', at_⟩ := holds
    obtain rfl := Option.some.inj (holder.symm.trans holder')
    exact (Array.getElem?_eq_some_iff.mp at_).1

/-- In a phase without a start in its locked part the lock is free. -/
theorem of_free (h : s.Stands phase) (free : s.holder? = none) :
    phase = .calm ∨ phase = .dropping := by
  have holds := h.holder
  cases phase <;> simp [Holds, free] at holds ⊢

/-- One more call, which has no lock yet. -/
theorem push (h : s.Stands phase) {call : Call} (outside : call = .checking ∨ call = .cancelling) :
    Stands phase { s with calls := s.calls.push call } := by
  refine ⟨fun number c found => ?_, ?_⟩
  · rw [Array.getElem?_push] at found
    split at found
    next last =>
      have free : s.holder? ≠ some number := fun holder =>
        absurd (h.lt_of_holder? holder) (by omega)
      obtain rfl := Option.some.inj found
      rcases outside with rfl | rfl <;> exact free
    next => exact h.calls number c found
  · have holds := h.holder
    cases phase with
    | calm | dropping => exact holds
    | spawning | keeping =>
      obtain ⟨n, holder, at_⟩ := holds
      refine ⟨n, holder, ?_⟩
      have lt := h.lt_of_holder? holder
      rw [Array.getElem?_push, if_neg (by omega)]
      exact at_

/-- A call that moves on, and the phase with it. -/
theorem moved (h : s.Stands phase) {t : Traffic} {phase' : Phase} {number : Nat} {call : Call}
    (calls : t.calls = s.calls.setIfInBounds number call) (own : Fits phase' t.holder? number call)
    (others : ∀ n c, n ≠ number → Fits phase s.holder? n c → Fits phase' t.holder? n c)
    (holder : t.Holds phase') : t.Stands phase' := by
  refine ⟨fun n c found => ?_, holder⟩
  rw [calls] at found
  rcases eq_or_of_getElem?_setIfInBounds found with ⟨rfl, rfl⟩ | ⟨ne, found⟩
  · exact own
  · exact others n c ne (h.calls n c found)

/-- A call outside the locked part of a start moves on in the same phase. -/
theorem goTo (h : s.Stands phase) {number : Nat} {call : Call} (buffer : Buffer)
    (outside : s.holder? ≠ some number) (own : Fits phase s.holder? number call) :
    Stands phase ({ s with buffer }.goTo number call) := by
  refine h.moved rfl own (fun _ _ _ fits => fits) ?_
  have holds := h.holder
  cases phase with
  | calm | dropping => exact holds
  | spawning | keeping =>
    obtain ⟨n, holder, at_⟩ := holds
    have ne : number ≠ n := fun same => outside (same ▸ holder)
    exact ⟨n, holder, by simpa [Traffic.goTo, Array.getElem?_setIfInBounds, ne] using at_⟩

/-- Where nobody is between the sections of a stop, nothing is left to drop. -/
theorem calm_of_dropping (h : s.Stands .dropping) (none : .discarding ∉ s.calls) :
    s.Stands .calm := by
  refine ⟨fun number call found => ?_, h.holder⟩
  have fits := h.calls number call found
  cases call with
  | spawning | keeping => cases fits.1
  | discarding => exact absurd (Array.mem_of_getElem? found) none
  | _ => exact fits

end Stands

namespace Guarded

/-- Where no call is in its locked part or about to drop the queue, the buffer is calm. -/
theorem calm (h : s.Guarded) (free : s.holder? = none) (none : .discarding ∉ s.calls) :
    s.Stands .calm ∧ s.buffer.Coherent .calm := by
  obtain ⟨phase, stands, coherent⟩ := h
  rcases stands.of_free free with rfl | rfl
  · exact ⟨stands, coherent⟩
  · exact ⟨stands.calm_of_dropping none, coherent.calm_of_dropping⟩

/-- A section leads from a phase to a phase. -/
theorem advance (h : s.Guarded) (number : Nat) (spawns : Bool)
    (apart : s.Apart (.advance number spawns)) : (s.advance number spawns).Guarded := by
  have advances := s.advances_advance number spawns
  generalize s.advance number spawns = t at advances
  obtain ⟨phase, stands, coherent⟩ := id h
  cases advances with
  | waits => exact h
  | checks call at_ next =>
    have outside : s.holder? ≠ some number := stands.calls number _ at_
    refine ⟨phase, stands.goTo s.buffer outside ?_, coherent⟩
    rcases next with rfl | rfl <;> exact outside
  | refused at_ =>
    have outside : s.holder? ≠ some number := stands.calls number _ at_
    exact ⟨phase, stands.goTo s.buffer outside outside, coherent⟩
  | begins at_ free off =>
    have lt := (Array.getElem?_eq_some_iff.mp at_).1
    obtain ⟨stands, coherent⟩ := h.calm free (apart at_)
    refine ⟨.spawning, stands.moved rfl ⟨rfl, rfl⟩ (fun n c ne fits => ?_) ?_, coherent.begin off⟩
    · exact fits.of_ne ne (by simp [free]) (by simp [Traffic.goTo]) nofun
    · exact ⟨number, rfl, by simp [Traffic.goTo, lt]⟩
  | spawns at_ =>
    have lt := (Array.getElem?_eq_some_iff.mp at_).1
    obtain ⟨rfl, holder⟩ : phase = .spawning ∧ s.holder? = some number := stands.calls number _ at_
    refine ⟨.keeping, stands.moved rfl ⟨rfl, holder⟩ (fun n c ne fits => ?_) ?_, coherent.spawn⟩
    · exact fits.of_ne ne (by simp [holder]) (by simp [Traffic.goTo, holder]) nofun
    · exact ⟨number, holder, by simp [Traffic.goTo, lt]⟩
  | abandons at_ =>
    obtain ⟨rfl, holder⟩ : phase = .spawning ∧ s.holder? = some number := stands.calls number _ at_
    refine ⟨.calm, stands.moved rfl nofun (fun n c ne fits => ?_) rfl, coherent.abandon⟩
    exact fits.of_ne ne (by simp [holder]) (by simp [Traffic.goTo]) nofun
  | keeps at_ =>
    obtain ⟨rfl, holder⟩ : phase = .keeping ∧ s.holder? = some number := stands.calls number _ at_
    refine ⟨.calm, stands.moved rfl nofun (fun n c ne fits => ?_) rfl, coherent.keepToken⟩
    exact fits.of_ne ne (by simp [holder]) (by simp [Traffic.goTo]) nofun
  | cancels at_ free =>
    refine ⟨.dropping, stands.moved rfl rfl (fun n c ne fits => ?_) free,
      coherent.cancelToken (stands.of_free free)⟩
    exact fits.of_ne ne (by simp [free]) (by simp [Traffic.goTo, free]) fun _ => rfl
  | discards at_ =>
    obtain rfl : phase = .dropping := stands.calls number _ at_
    have free : s.holder? = none := stands.holder
    exact ⟨.dropping, stands.goTo _ (by simp [free]) (by simp [Fits, free]), coherent.discard⟩

theorem step (h : s.Guarded) {e : Event} (apart : s.Apart e) : (s.step e).Guarded := by
  obtain ⟨phase, stands, coherent⟩ := id h
  cases e with
  | start => exact ⟨phase, stands.push (.inl rfl), coherent⟩
  | stop => exact ⟨phase, stands.push (.inr rfl), coherent⟩
  | advance call spawns => exact h.advance call spawns apart
  | next => exact ⟨phase, ⟨stands.calls, stands.holder⟩, coherent.next⟩
  | produce number now =>
    exact ⟨phase, ⟨stands.calls, stands.holder⟩, coherent.stepProducer now s.program number⟩
  | change what => exact ⟨phase, ⟨stands.calls, stands.holder⟩, coherent⟩

theorem run (h : s.Guarded) {events : List Event} (apart : s.Throughout Apart events) :
    (s.run events).Guarded := by
  induction events generalizing s with
  | nil => exact h
  | cons e events ih => exact ih (h.step apart.1) apart.2

end Guarded

/-! ## Calls that do not overlap -/

/-- A section is one of a call that has not returned, and changes no other call. -/
theorem calls_advance (s : Traffic) (number : Nat) (spawns : Bool) :
    (s.advance number spawns).calls = s.calls ∨
      ∃ old new, s.calls[number]? = some old ∧ old ≠ .returned ∧
        (s.advance number spawns).calls = s.calls.setIfInBounds number new := by
  have advances := s.advances_advance number spawns
  generalize s.advance number spawns = t at advances
  cases advances with
  | waits => exact .inl rfl
  | checks _ at_ | refused at_ | begins at_ | spawns at_ | abandons at_ | keeps at_ | cancels at_
  | discards at_ => exact .inr ⟨_, _, at_, nofun, rfl⟩

/-- At most one call has not returned. -/
def InTurn (s : Traffic) : Prop :=
  ∀ (m n : Nat) (c d : Call), s.calls[m]? = some c → s.calls[n]? = some d → c ≠ .returned →
    d ≠ .returned → m = n

theorem inTurn_opened (path : String) (medium : Medium) (stream : StreamSettings)
    (settings : BufferSettings) : (opened path medium stream settings).InTurn := by
  simp [InTurn, opened]

namespace InTurn

/-- A run begins between the sections of no other call. -/
theorem apart (h : s.InTurn) (e : Event) : s.Apart e := by
  cases e with
  | advance call spawns =>
    intro at_ mem
    obtain ⟨n, found⟩ := Array.getElem?_of_mem mem
    obtain rfl := h call n _ _ at_ found nofun nofun
    cases at_.symm.trans found
  | _ => trivial

/-- One more call, where all others have returned. -/
theorem push (returned : ∀ call ∈ s.calls, call = .returned) (call : Call) :
    InTurn { s with calls := s.calls.push call } := by
  have last {n : Nat} {c : Call} (found : (s.calls.push call)[n]? = some c) (busy : c ≠ .returned) :
      n = s.calls.size := by
    rw [Array.getElem?_push] at found
    split at found
    next eq => exact eq
    next => exact absurd (returned c (Array.mem_of_getElem? found)) busy
  intro m n c d found_m found_n busy_c busy_d
  rw [last found_m busy_c, last found_n busy_d]

theorem step (h : s.InTurn) {e : Event} (alone : s.Alone e) : (s.step e).InTurn := by
  cases e with
  | start | stop => exact push alone _
  | advance call spawns =>
    unfold InTurn
    simp only [Traffic.step]
    rcases s.calls_advance call spawns with same | ⟨old, new, at_, busy, moved⟩
    · rw [same]
      exact h
    · rw [moved]
      -- Another call that has not returned would be one beside the call that moves.
      have own {n : Nat} {c : Call} (found : (s.calls.setIfInBounds call new)[n]? = some c)
          (busy_c : c ≠ .returned) : n = call := by
        rcases eq_or_of_getElem?_setIfInBounds found with ⟨eq, -⟩ | ⟨-, found⟩
        · exact eq
        · exact h n call c old found at_ busy_c busy
      intro m n c d found_m found_n busy_c busy_d
      rw [own found_m busy_c, own found_n busy_d]
  | next | produce | change => exact h

theorem run (h : s.InTurn) {events : List Event} (alone : s.Throughout Alone events) :
    (s.run events).InTurn := by
  induction events generalizing s with
  | nil => exact h
  | cons e events ih => exact ih (h.step alone.1) alone.2

/-- Calls that do not overlap begin their runs apart from all stops. -/
theorem throughout_apart (h : s.InTurn) {events : List Event}
    (alone : s.Throughout Alone events) : s.Throughout Apart events := by
  induction events generalizing s with
  | nil => trivial
  | cons e events ih => exact ⟨h.apart e, ih (h.step alone.1) alone.2⟩

end InTurn

/-- What holds of all calls, and of the section that one of them comes to. -/
theorem forall_mem_moved {P : Call → Prop} (all : ∀ call ∈ s.calls, P call) {new : Call}
    (own : P new) (number : Nat) : ∀ call ∈ s.calls.setIfInBounds number new, P call := by
  intro call mem
  rcases Array.mem_or_eq_of_mem_setIfInBounds mem with before | rfl
  · exact all call before
  · exact own

/-! ## Behind a stop -/

/-- Nothing is queued, nobody is left who could queue anything, and no start is on its way. -/
structure Still (s : Traffic) : Prop where
  items : s.buffer.queue.items = []
  idle : ∀ (number : Nat) (w : Producer), s.buffer.producers[number]? = some w → ¬w.IsLive
  calls : ∀ call ∈ s.calls, call.isStart = false

namespace Still

/-- A stop leaves nothing behind. -/
theorem of_discarding (h : s.Guarded) {number : Nat}
    (at_ : s.calls[number]? = some .discarding) (none : ∀ call ∈ s.calls, call.isStart = false)
    (spawns : Bool) : (s.advance number spawns).Still := by
  obtain ⟨phase, stands, coherent⟩ := h
  obtain rfl : phase = .dropping := stands.calls number _ at_
  have after : s.advance number spawns =
      { s with buffer := s.buffer.discard }.goTo number .returned := by simp [Traffic.advance, at_]
  rw [after]
  exact ⟨rfl, fun n w found live => (coherent.live n w found live).2.2.1 rfl,
    forall_mem_moved none rfl number⟩

theorem advance (h : s.Still) (number : Nat) (spawns : Bool) : (s.advance number spawns).Still := by
  have advances := s.advances_advance number spawns
  generalize s.advance number spawns = t at advances
  have off {call : Call} (at_ : s.calls[number]? = some call) (start : call.isStart = true) :
      False :=
    Bool.noConfusion (start.symm.trans (h.calls call (Array.mem_of_getElem? at_)))
  cases advances with
  | waits => exact h
  | checks _ at_ | refused at_ | begins at_ | spawns at_ | abandons at_ | keeps at_ =>
    exact (off at_ rfl).elim
  | cancels at_ =>
    refine ⟨h.items, fun n w found live => ?_, forall_mem_moved h.calls rfl number⟩
    simp only [Traffic.goTo, Buffer.cancelToken, Array.getElem?_map,
      Option.map_eq_some_iff] at found
    obtain ⟨before, found, rfl⟩ := found
    split at live
    · cases live.1
    · exact h.idle n before found live
  | discards at_ => exact ⟨rfl, h.idle, forall_mem_moved h.calls rfl number⟩

theorem produce (h : s.Still) (number now : Nat) : (s.step (.produce number now)).Still := by
  unfold Traffic.step Buffer.stepProducer
  dsimp only
  cases found : s.buffer.producers[number]? with
  | none => exact h
  | some w =>
    have idle := h.idle number w found
    have acts := w.acts_step s.buffer.settings now ⟨s.program, s.buffer.queue⟩
    dsimp only
    generalize w.step s.buffer.settings now ⟨s.program, s.buffer.queue⟩ = after at acts
    have keeps {q : Queue} {w' : Producer} {p : Program} (items : q.items = s.buffer.queue.items)
        (idle' : ¬w'.IsLive) :
        Still { s with
          program := p
          buffer := { s.buffer with
            queue := q, producers := s.buffer.producers.setIfInBounds number w' } } := by
      refine ⟨items.trans h.items, fun n v found' => ?_, h.calls⟩
      rcases eq_or_of_getElem?_setIfInBounds found' with ⟨-, rfl⟩ | ⟨-, found'⟩
      · exact idle'
      · exact h.idle n v found'
    cases acts with
    | turns program point there =>
      exact keeps rfl fun live => idle ⟨live.1, fun gone => live.2 (there gone)⟩
    | delivers _ _ _ live => exact absurd live idle
    | concludes outcome => exact keeps (Queue.items_conclude ..) fun live => live.2 rfl

theorem step (h : s.Still) {e : Event} (other : e ≠ .start) : (s.step e).Still := by
  cases e with
  | start => exact absurd rfl other
  | stop => exact ⟨h.items, h.idle, Array.forall_mem_push.mpr ⟨rfl, h.calls⟩⟩
  | advance call spawns => exact h.advance call spawns
  | next =>
    have gives := s.buffer.next_spec
    have same : s.buffer.next.2 = s.buffer := by
      split at gives
      next => cases h.items.symm.trans gives.2.1
      next => exact gives.2.1
      next => exact gives.1
    unfold Traffic.step
    dsimp only
    rw [same]
    exact ⟨h.items, h.idle, h.calls⟩
  | produce number now => exact h.produce number now
  | change what => exact ⟨h.items, h.idle, h.calls⟩

theorem run (h : s.Still) {events : List Event} (others : .start ∉ events) :
    (s.run events).Still := by
  induction events generalizing s with
  | nil => exact h
  | cons e events ih =>
    simp only [List.mem_cons, not_or] at others
    exact ih (h.step (Ne.symm others.1)) others.2

end Still

end

/-! ## Calls one at a time -/

/-- The sections of a start, one right after the other, are the start. -/
theorem buffer_run_start (s : Traffic) (free : s.holder? = none) :
    (s.run (.start :: List.replicate 4 (.advance s.calls.size true))).buffer =
      match s.buffer.start (some s.program.state) with
      | .ok buffer => buffer
      | .error _ => s.buffer := by
  have set_ (call call' : Call) :
      (s.calls.push call).setIfInBounds s.calls.size call' = s.calls.push call' := by
    apply Array.ext_getElem?
    intro n
    rw [Array.getElem?_setIfInBounds, Array.getElem?_push, Array.getElem?_push, Array.size_push]
    grind
  simp only [run, List.foldl_cons, List.replicate, List.foldl_nil, step]
  cases checked : Buffer.checkSource (some s.program.state) with
  | error e =>
    simp [advance, goTo, set_, checked, Buffer.start, bind, Except.bind]
  | ok _ =>
    by_cases on : s.buffer.queue.stage = .running
    · simp [advance, goTo, set_, checked, free, Buffer.start, Buffer.beginRun, on, bind,
        Except.bind]
    · simp [advance, goTo, set_, checked, free, Buffer.start, Buffer.beginRun, on, bind,
        Except.bind, pure, Except.pure]

/-- And those of a stop are the stop. -/
theorem buffer_run_stop (s : Traffic) (free : s.holder? = none) (spawns : Bool) :
    (s.run (.stop :: List.replicate 2 (.advance s.calls.size spawns))).buffer = s.buffer.stop := by
  simp [run, List.replicate, step, advance, goTo, free, Buffer.stop]

end Traffic

end GcodeJob
