/-!
# GcodeJob.Terminal.Timing

How long a command took, sorted into bands with a label and a colour.
-/

namespace GcodeJob

/-- The colours a timing is shown in. -/
inductive Colour
  | green
  | darkGreen
  | yellow
  | darkYellow
  | red
  deriving DecidableEq, Repr

inductive TimingBand
  | fast
  | normal
  | slow
  | verySlow
  | stalled
  deriving DecidableEq, Repr

namespace TimingBand

/-- The band of a time in milliseconds. -/
def ofTime (ms : Int) : TimingBand :=
  if ms < 125 then .fast
  else if ms < 250 then .normal
  else if ms < 500 then .slow
  else if ms < 1000 then .verySlow
  else .stalled

/-- The place of a band, fastest first. -/
def rank : TimingBand → Nat
  | .fast => 0
  | .normal => 1
  | .slow => 2
  | .verySlow => 3
  | .stalled => 4

def label : TimingBand → String
  | .fast => "fast"
  | .normal => "normal"
  | .slow => "slow"
  | .verySlow => "very slow"
  | .stalled => "stalled"

def colour : TimingBand → Colour
  | .fast => .green
  | .normal => .darkGreen
  | .slow => .yellow
  | .verySlow => .darkYellow
  | .stalled => .red

end TimingBand

end GcodeJob
