import GcodeJob.File.IndexedFile

/-!
# GcodeJob.Proofs.File.Lifetime

The life of a file, from its opening to its closing.  Its index is built at
most once and may fail instead, both for good, and a file that has been closed
stays so.  All that is done to a file but closing it (`IndexedFile.Works`)
takes the index on and leaves alone whether the file is closed; closing only
adds to that (`IndexedFile.GoesOn`).
-/

namespace GcodeJob

/-- How the state of an index may go on: an index that is being built is
built or fails, and any file may be closed. -/
inductive IndexState.GoesTo : IndexState → IndexState → Prop
  | stays (state : IndexState) : GoesTo state state
  | builds : GoesTo .building .built
  | fails : GoesTo .building .failed
  | closes (state : IndexState) : GoesTo state .closed

/-- Whether the build goes on. -/
def IndexPhase.isScanning : IndexPhase → Bool
  | .scanning .. => true
  | _ => false

namespace IndexedFile

/-- What a look at the state of an index gives that looks for the closing mark,
for the index and for a failure one after the other. -/
def seen (first second third : IndexedFile) : IndexState :=
  if first.closed then .closed
  else if second.index?.isSome then .built
  else if third.failure?.isSome then .failed
  else .building

/-- What is done to a file, other than closing it. -/
structure Works (f f' : IndexedFile) : Prop where
  path : f'.path = f.path
  closed : f'.closed = f.closed
  released : f'.released = f.released
  /-- An index that has been built or has failed stays as it is. -/
  phase : f.phase.isScanning = true ∨ f'.phase = f.phase

/-- Whatever becomes of a file once it has been opened. -/
structure GoesOn (f f' : IndexedFile) : Prop where
  path : f'.path = f.path
  closed : f.closed = true → f'.closed = true
  released : f.released = true → f'.released = true
  phase : f.phase.isScanning = true ∨ f'.phase = f.phase

section
variable {f f' f'' : IndexedFile}

/-! ## Opening -/

theorem path_openAt (path : String) (medium : Medium) (chunkSize : Nat) :
    (openAt path medium chunkSize).path = path := by
  unfold openAt
  split <;> rfl

theorem closed_openAt (path : String) (medium : Medium) (chunkSize : Nat) :
    (openAt path medium chunkSize).closed = false := by
  unfold openAt
  split <;> rfl

/-! ## Work on a file -/

theorem Works.refl (f : IndexedFile) : f.Works f := ⟨rfl, rfl, rfl, .inr rfl⟩

theorem works_readChunk (f : IndexedFile) : f.Works f.readChunk := by
  unfold readChunk
  split
  next scan at_ =>
    have scanning : f.phase.isScanning = true := by rw [at_]; rfl
    split
    · exact .refl f
    · cases f.medium.read scan.offset f.chunkSize <;> exact ⟨rfl, rfl, rfl, .inl scanning⟩
  next => exact .refl f

/-- A build that has found the file open reads on, closed or not. -/
theorem works_readFoundOpen (f : IndexedFile) : f.Works f.readFoundOpen := by
  have read := works_readChunk { f with closed := false }
  exact ⟨read.path, rfl, read.released, read.phase⟩

theorem works_takeChunk (f : IndexedFile) : f.Works f.takeChunk := by
  unfold takeChunk
  split
  next at_ => exact ⟨rfl, rfl, rfl, .inl (by rw [at_]; rfl)⟩
  next at_ => exact ⟨rfl, rfl, rfl, .inl (by rw [at_]; rfl)⟩
  next => exact .refl f

theorem works_afterReading (f : IndexedFile) (r : LineReader) : f.Works (f.afterReading r) :=
  ⟨rfl, rfl, rfl, .inr rfl⟩

/-- Whatever the path leads to, the file itself stays as it is. -/
theorem works_withMedium (f : IndexedFile) (medium : Medium) : f.Works { f with medium } :=
  ⟨rfl, rfl, rfl, .inr rfl⟩

theorem works_replaceContent (f : IndexedFile) (content : ByteArray) :
    f.Works (f.replaceContent content) := f.works_withMedium (.regular content)

/-! ## Going on -/

theorem Works.goesOn (h : f.Works f') : f.GoesOn f' :=
  ⟨h.path, fun closed => h.closed.trans closed, fun released => h.released.trans released, h.phase⟩

theorem GoesOn.refl (f : IndexedFile) : f.GoesOn f := (Works.refl f).goesOn

theorem GoesOn.trans (first : f.GoesOn f') (second : f'.GoesOn f'') : f.GoesOn f'' where
  path := second.path.trans first.path
  closed closed := second.closed (first.closed closed)
  released released := second.released (first.released released)
  phase := by
    rcases first.phase with scanning | same
    · exact .inl scanning
    · rw [← same]
      exact second.phase

theorem goesOn_markClosed (f : IndexedFile) : f.GoesOn f.markClosed :=
  ⟨rfl, fun _ => rfl, id, .inr rfl⟩

theorem goesOn_release (f : IndexedFile) : f.GoesOn f.release :=
  ⟨rfl, id, fun _ => rfl, .inr rfl⟩

/-- An index that is installed stays. -/
theorem GoesOn.index?_eq (h : f.GoesOn f') (built : f.index?.isSome = true) :
    f'.index? = f.index? := by
  unfold index? at built ⊢
  rcases h.phase with scanning | same
  · cases at_ : f.phase <;> simp [at_, IndexPhase.isScanning] at built scanning
  · rw [same]

/-- A failure stays. -/
theorem GoesOn.failure?_eq (h : f.GoesOn f') (failed : f.failure?.isSome = true) :
    f'.failure? = f.failure? := by
  unfold failure? at failed ⊢
  rcases h.phase with scanning | same
  · cases at_ : f.phase <;> simp [at_, IndexPhase.isScanning] at failed scanning
  · rw [same]

/-- No index is installed after a failure. -/
theorem GoesOn.index?_of_failure (h : f.GoesOn f') (failed : f.failure?.isSome = true) :
    f'.index? = none := by
  have stays := h.failure?_eq failed
  rw [← stays] at failed
  unfold failure? at failed
  unfold index?
  cases at_ : f'.phase <;> simp [at_] at failed ⊢

/-- **The state goes on** from one look to the next, whatever goes on during them. -/
theorem goesTo_seen {f₁ f₂ f₃ g₁ g₂ g₃ : IndexedFile} (first : f₁.GoesOn f₂) (second : f₂.GoesOn f₃)
    (between : f₃.GoesOn g₁) (third : g₁.GoesOn g₂) (last : g₂.GoesOn g₃) :
    (seen f₁ f₂ f₃).GoesTo (seen g₁ g₂ g₃) := by
  by_cases now : g₁.closed = true
  · have closed : seen g₁ g₂ g₃ = .closed := by simp [seen, now]
    rw [closed]
    exact .closes _
  have open_ : ¬f₁.closed = true := fun closed =>
    now (between.closed (second.closed (first.closed closed)))
  have to_g₂ : f₃.GoesOn g₂ := between.trans third
  unfold seen
  rw [if_neg open_, if_neg now]
  by_cases built : f₂.index?.isSome = true
  · rw [if_pos built, if_pos]
    · exact .stays _
    · rw [(second.trans to_g₂).index?_eq built]
      exact built
  rw [if_neg built]
  by_cases failed : f₃.failure?.isSome = true
  · have absent : ¬g₂.index?.isSome = true := by simp [to_g₂.index?_of_failure failed]
    rw [if_pos failed, if_neg absent, if_pos]
    · exact .stays _
    · rw [(to_g₂.trans last).failure?_eq failed]
      exact failed
  rw [if_neg failed]
  split
  · exact .builds
  split
  · exact .fails
  · exact .stays _

end

end IndexedFile

end GcodeJob
