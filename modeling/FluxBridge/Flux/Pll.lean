import FluxBridge.Types

/-!
# Dynamic software PLL

`src/flux/pll.rs`. Clock and phase are `i64` in the source, whose `/` truncates towards zero.
`submit` returns the cells it appends to `output`.
-/

namespace FluxBridge

/-- The range of `u32`. -/
def U32_RANGE : Nat := 2 ^ 32

def I64_MIN : Int := -2 ^ 63
def I64_MAX : Int := 2 ^ 63 - 1

def CLOCK_CENTRE_NS : Int := 2000
def CLOCK_MIN_NS : Int := 1800
def CLOCK_MAX_NS : Int := 2200

/-- One measured delay ending in a magnetic flux transition. -/
structure FluxEvent where
  nanoseconds : Nat
  index : Bool
  deriving DecidableEq, Repr

/-- Stateful dynamic PLL converting flux delays to MFM bit cells. -/
structure PllDecoder where
  clockNs : Int
  pendingNs : Int
  deriving DecidableEq, Repr

/-- `i64::saturating_add`. -/
def saturatingAdd (a b : Int) : Int := max I64_MIN (min I64_MAX (a + b))

namespace PllDecoder

/-- A PLL centred on the 2 μs bit cell. -/
def new : PllDecoder := { clockNs := CLOCK_CENTRE_NS, pendingNs := 0 }

/-- The correction of the clock after `zeros` empty cells with the phase `rest`. -/
def drift (pll : PllDecoder) (zeros rest : Int) : Int :=
  if 1 ≤ zeros ∧ zeros ≤ 3 then (rest.tdiv (zeros + 1)).tdiv 10
  else (CLOCK_CENTRE_NS - pll.clockNs).tdiv 10

/-- Submits a transition delay, and returns the decoded cells. -/
def submit (pll : PllDecoder) (nanoseconds : Nat) : PllDecoder × List Bool :=
  let pending := saturatingAdd pll.pendingNs nanoseconds
  if pending < pll.clockNs.tdiv 2 then ({ pll with pendingNs := pending }, [])
  else
    let zeros := max ((pending - pll.clockNs.tdiv 2).tdiv pll.clockNs) 0
    let rest := pending - (zeros + 1) * pll.clockNs
    -- half of the phase mismatch is kept
    ({ clockNs := max CLOCK_MIN_NS (min CLOCK_MAX_NS (pll.clockNs + pll.drift zeros rest)),
       pendingNs := rest.tdiv 2 },
      List.replicate zeros.toNat false ++ [true])

/-- Submits the delays of a list of events, one after the other. -/
def run : PllDecoder → List FluxEvent → PllDecoder × List Bool
  | pll, [] => (pll, [])
  | pll, event :: events =>
    let (next, cells) := pll.submit event.nanoseconds
    let (last, rest) := next.run events
    (last, cells ++ rest)

theorem run_cons (pll : PllDecoder) (event : FluxEvent) (events : List FluxEvent) :
    pll.run (event :: events) =
      (((pll.submit event.nanoseconds).1.run events).1,
        (pll.submit event.nanoseconds).2 ++ ((pll.submit event.nanoseconds).1.run events).2) := rfl

/-- Running on: what is decoded from a list is decoded part by part. -/
theorem run_append (pll : PllDecoder) (left right : List FluxEvent) :
    pll.run (left ++ right) =
      (((pll.run left).1.run right).1, (pll.run left).2 ++ ((pll.run left).1.run right).2) := by
  induction left generalizing pll with
  | nil => rfl
  | cons event left ih =>
    rw [List.cons_append, run_cons, ih, run_cons, List.append_assoc]

end PllDecoder

end FluxBridge
