import FluxBridge.Transport.Wire

/-!
# What arrives and what is taken before a deadline

The polls of a byte loop, read off the history of a run: which bytes came, in which polls nothing
came, and whether the port itself failed. In the same way the bytes that a write has handed to the
port, call by call.

* `arrives` — what a byte loop makes of its polls, as a function of what they bring
* `eachByte_spec` — a byte loop ends with that, unless the port fails
* `takesAll` — whether the port takes all the bytes before the deadline, as a function of what it
  takes with each call
* `writeAllUntil_spec` — a write hands over all its bytes just then, unless the port fails
-/

namespace FluxBridge

open Atomic

/-! ## Reading off a history -/

/-- What a poll brought: a byte, or nothing in time. -/
def polled : Event wireSig → List (Option Byte)
  | ⟨.read _, .ok ⟨byte :: _, _⟩⟩ => [some byte]
  | ⟨.read _, .error _⟩ => [none]
  | _ => []

/-- What the polls of a history brought, the first one first. -/
def polls : History wireSig → List (Option Byte)
  | [] => []
  | event :: rest => polls rest ++ polled event

/-- The deadlines that were set, the first one first. -/
def deadlines : History wireSig → List Nat
  | [] => []
  | ⟨.deadline, polls⟩ :: rest => deadlines rest ++ [polls]
  | _ :: rest => deadlines rest

/-- The bytes that a call has handed to the port. -/
def takenBy : Event wireSig → List Byte
  | ⟨.write bytes, .ok count⟩ => bytes.take count
  | _ => []

/-- How many bytes the port has taken with a call that offers some; `none` where the call timed
out or failed. -/
def offered : Event wireSig → List (Option Nat)
  | ⟨.write _, .ok count⟩ => [some count.val]
  | ⟨.write _, .error _⟩ => [none]
  | _ => []

/-- The bytes that the port has taken in a history, the first one first. -/
def bytesTaken (h : History wireSig) : List Byte := gather takenBy h

def offers (h : History wireSig) : List (Option Nat) := gather offered h

/-- The port reports that it is closed, or a failure that is not a timeout. -/
def failed : Event wireSig → Bool
  | ⟨.setTimeout, .error _⟩ => true
  | ⟨.purge, .error _⟩ => true
  | ⟨.read _, .ok ⟨[], _⟩⟩ => true
  | ⟨.read _, .error kind⟩ => !kind.isTimeout
  | ⟨.write _, .ok written⟩ => written.val == 0
  | ⟨.write _, .error kind⟩ => !kind.isTimeout
  | ⟨.flush, .error kind⟩ => !kind.isTimeout
  | _ => false

def PortFailed (h : History wireSig) : Prop := ∃ event ∈ h, failed event = true

theorem polls_append (new old : History wireSig) : polls (new ++ old) = polls old ++ polls new := by
  induction new with
  | nil => rw [List.nil_append, polls, List.append_nil]
  | cons event new ih => rw [List.cons_append, polls, ih, polls, List.append_assoc]

theorem bytesTaken_append (new old : History wireSig) :
    bytesTaken (new ++ old) = bytesTaken old ++ bytesTaken new :=
  gather_append takenBy new old

theorem offers_append (new old : History wireSig) :
    offers (new ++ old) = offers old ++ offers new :=
  gather_append offered new old

theorem deadlines_append (new old : History wireSig) :
    deadlines (new ++ old) = deadlines old ++ deadlines new := by
  induction new with
  | nil => rw [List.nil_append, deadlines, List.append_nil]
  | cons event new ih =>
    rw [List.cons_append]
    obtain ⟨op, ret⟩ := event
    cases op with
    | deadline => rw [deadlines, ih, deadlines, List.append_assoc]
    | _ => exact ih

theorem deadlines_eq_nil {new : History wireSig} (h : ∀ event ∈ new, event.op ≠ .deadline) :
    deadlines new = [] := by
  induction new with
  | nil => rfl
  | cons event new ih =>
    have hrest := ih fun event hevent => h event (List.mem_cons_of_mem _ hevent)
    obtain ⟨op, ret⟩ := event
    cases op with
    | deadline => exact absurd rfl (h _ List.mem_cons_self)
    | _ => exact hrest

theorem PortFailed.append {old : History wireSig} (h : PortFailed old) (new : History wireSig) :
    PortFailed (new ++ old) := by
  obtain ⟨event, hevent, hfailed⟩ := h
  exact ⟨event, List.mem_append_right _ hevent, hfailed⟩

theorem PortFailed.new {new : History wireSig} (h : PortFailed new) (old : History wireSig) :
    PortFailed (new ++ old) := by
  obtain ⟨event, hevent, hfailed⟩ := h
  exact ⟨event, List.mem_append_left _ hevent, hfailed⟩

/-! ## A byte loop -/

/-- The result of a byte loop, and what is left of its deadline; `none` where the polls run out, or
where a byte is refused. -/
def arrives {σ α : Type} (feed : σ → Byte → Except Error (σ ⊕ α)) :
    σ → Nat → List (Option Byte) → Option (α × Nat)
  | _, 0, _ => none
  | _, _ + 1, [] => none
  | state, left + 1, none :: rest => arrives feed state left rest
  | state, left + 1, some byte :: rest =>
    match feed state byte with
    | .error _ => none
    | .ok (.inl state) => arrives feed state left rest
    | .ok (.inr result) => some (result, left)

section Loop

variable {D σ α : Type} {feed : σ → Byte → Except Error (σ ⊕ α)}

theorem arrives_nothing (state : σ) (waited left : Nat) (rest : List (Option Byte)) :
    arrives feed state (waited + left) (List.replicate waited none ++ rest) =
      arrives feed state left rest := by
  induction waited with
  | zero => rw [Nat.zero_add, List.replicate_zero, List.nil_append]
  | succ waited ih =>
    rw [List.replicate_succ, List.cons_append, show waited + 1 + left = waited + left + 1 by omega,
      arrives, ih]

/-- What has arrived is not changed by later polls. -/
theorem arrives_append {state : σ} {left : Nat} {front : List (Option Byte)} {result : α × Nat}
    (h : arrives feed state left front = some result) (later : List (Option Byte)) :
    arrives feed state left (front ++ later) = some result := by
  induction front generalizing state left with
  | nil =>
    cases left with
    | zero => cases h
    | succ left => cases h
  | cons poll front ih =>
    cases left with
    | zero => cases h
    | succ left =>
      rw [List.cons_append]
      cases poll with
      | none => exact ih h
      | some byte =>
        rw [arrives] at h ⊢
        split at h
        · cases h
        · exact ih h
        · exact h

/-- The events of a loop that only polls. -/
def OnlyPolls (new : History wireSig) : Prop :=
  ∀ event ∈ new, event.op = .setTimeout ∨ ∃ room, event.op = .read room

theorem OnlyPolls.deadlines {new : History wireSig} (h : OnlyPolls new) : deadlines new = [] := by
  refine deadlines_eq_nil fun event hevent hop => ?_
  rcases h event hevent with hother | ⟨room, hother⟩
  · cases hop.symm.trans hother
  · cases hop.symm.trans hother

theorem OnlyPolls.gathered {α : Type} {f : Event wireSig → List α} {new : History wireSig}
    (hnew : OnlyPolls new) (htimeout : ∀ result, f ⟨.setTimeout, result⟩ = [])
    (hread : ∀ room answer, f ⟨.read room, answer⟩ = []) : gather f new = [] := by
  refine gather_eq_nil fun event hevent => ?_
  obtain ⟨op, ret⟩ := event
  rcases hnew _ hevent with hop | ⟨room, hop⟩
  · cases hop
    exact htimeout ret
  · cases hop
    exact hread room ret

theorem OnlyPolls.bytesTaken {new : History wireSig} (h : OnlyPolls new) : bytesTaken new = [] :=
  h.gathered (fun _ => rfl) fun _ _ => rfl

theorem OnlyPolls.offers {new : History wireSig} (h : OnlyPolls new) : offers new = [] :=
  h.gathered (fun _ => rfl) fun _ _ => rfl

theorem OnlyPolls.append {new old : History wireSig} (hnew : OnlyPolls new) (hold : OnlyPolls old) :
    OnlyPolls (new ++ old) := by
  intro event hevent
  rcases List.mem_append.mp hevent with hevent | hevent
  · exact hnew event hevent
  · exact hold event hevent

/-- How one byte is waited for, from an empty history. -/
inductive Waited (deadline : Nat) : Except Error (List Byte × Nat) → History wireSig → Prop
  | arrived {new : History wireSig} {byte : Byte} {waited left : Nat} (only : OnlyPolls new)
    (budget : deadline = waited + (left + 1))
    (came : polls new = List.replicate waited none ++ [some byte]) :
    Waited deadline (.ok ([byte], left)) new
  | expired {new : History wireSig} {e : Error} (only : OnlyPolls new)
    (came : polls new = List.replicate deadline none) : Waited deadline (.error e) new
  | broken {new : History wireSig} {e : Error} (only : OnlyPolls new) (failed : PortFailed new) :
    Waited deadline (.error e) new

theorem setTimeout_spec (self : D) (old : History wireSig) :
    (setTimeout : Host D Unit).wlp (.any wireSig) (fun _ _ _ => True)
      (fun result next h => next = self ∧ h = ⟨.setTimeout, result⟩ :: old) self old :=
  ⟨trivial, fun _ _ => ⟨rfl, rfl⟩⟩

/-- A poll that brings nothing leaves one poll less. -/
theorem Waited.later {deadline : Nat} {result : Except Error (List Byte × Nat)}
    {new : History wireSig} (h : Waited deadline result new) {kind : IoErrorKind} {room : Nat} :
    Waited (deadline + 1) result
      (new ++ [⟨.read room, .error kind⟩, ⟨.setTimeout, .ok ()⟩]) := by
  have hpoll : OnlyPolls [⟨.read room, .error kind⟩, ⟨.setTimeout, .ok ()⟩] := by
    intro event hevent
    rcases List.mem_pair.mp hevent with rfl | rfl
    · exact Or.inr ⟨room, rfl⟩
    · exact Or.inl rfl
  have hnothing : polls (new ++ [⟨.read room, .error kind⟩, ⟨.setTimeout, .ok ()⟩]) =
      none :: polls new := by
    rw [polls_append]
    rfl
  cases h with
  | @arrived _ byte waited left only budget came =>
    refine @Waited.arrived _ _ _ (waited + 1) left (only.append hpoll) (by omega) ?_
    rw [hnothing, came, List.replicate_succ, List.cons_append]
  | expired only came =>
    refine .expired (only.append hpoll) ?_
    rw [hnothing, came, List.replicate_succ]
  | broken only failed => exact .broken (only.append hpoll) (failed.new _)

theorem readExactUntil_zero (operation : String) (deadline : Nat) :
    (readExactUntil operation 0 deadline : Host D _) = pure ([], deadline) := by
  cases deadline with
  | zero => rfl
  | succ deadline => rfl

/-- Waiting for one byte. -/
theorem readExactUntil_spec (operation : String) (deadline : Nat) (self : D)
    (old : History wireSig) :
    (readExactUntil operation 1 deadline : Host D _).wlp (.any wireSig) (fun _ _ _ => True)
      (fun result next h => next = self ∧ ∃ new, h = new ++ old ∧ Waited deadline result new)
      self old := by
  have honly : OnlyPolls [⟨.setTimeout, .ok ()⟩] := by
    intro event hevent
    rw [List.mem_singleton.mp hevent]
    exact Or.inl rfl
  -- on the polls that are left; a poll that times out leaves the wait as it was, one poll shorter
  induction deadline generalizing old with
  | zero =>
    exact ⟨rfl, [], rfl, .expired (fun event hevent => absurd hevent List.not_mem_nil) rfl⟩
  | succ deadline ih =>
    refine Fallible.wlp_seq (setTimeout_spec self old) ?_ ?_
    · rintro e next h ⟨rfl, rfl⟩
      refine ⟨rfl, [⟨.setTimeout, .error e⟩], rfl, .broken ?_ ⟨_, List.mem_singleton_self _, rfl⟩⟩
      intro event hevent
      rw [List.mem_singleton.mp hevent]
      exact Or.inl rfl
    · rintro _ next h ⟨rfl, rfl⟩
      refine ⟨trivial, fun answer _ => ?_⟩
      have hread : OnlyPolls [⟨.read 1, answer⟩, ⟨.setTimeout, .ok ()⟩] := by
        intro event hevent
        rcases List.mem_pair.mp hevent with rfl | rfl
        · exact Or.inr ⟨1, rfl⟩
        · exact Or.inl rfl
      rcases answer with kind | ⟨bytes, hroom⟩
      · show Fallible.wlp _ _ _ (if kind.isTimeout then _ else _) _ _
        split
        · refine Fallible.wlp_mono (ih _) ?_
          rintro result next h ⟨rfl, new, rfl, hwaited⟩
          exact ⟨rfl, new ++ [⟨.read 1, .error kind⟩, ⟨.setTimeout, .ok ()⟩],
            by rw [List.append_assoc]; rfl, hwaited.later⟩
        · next hkind =>
          refine ⟨rfl, [_, _], rfl, .broken hread ⟨_, List.mem_cons_self, ?_⟩⟩
          show (!kind.isTimeout) = true
          rw [Bool.eq_false_iff.mpr hkind]
          rfl
      · cases bytes with
        | nil => exact ⟨rfl, [_, _], rfl, .broken hread ⟨_, List.mem_cons_self, rfl⟩⟩
        | cons byte rest =>
          -- a read of one byte brings no more than that
          obtain rfl : rest = [] :=
            List.length_eq_zero_iff.mp (Nat.le_zero.mp (Nat.le_of_succ_le_succ hroom))
          show Fallible.wlp _ _ _ (readExactUntil operation 0 deadline >>= fun read =>
            pure ([byte] ++ read.1, read.2)) _ _
          rw [readExactUntil_zero]
          exact ⟨rfl, [_, _], rfl, @Waited.arrived _ _ _ 0 deadline hread (by omega) rfl⟩

/-- How a byte loop ends, from an empty history; later polls change nothing about it. -/
inductive Looped (feed : σ → Byte → Except Error (σ ⊕ α)) (state : σ) (deadline : Nat) :
    Except Error (α × Nat) → History wireSig → Prop
  | completed {new : History wireSig} {result : α} {left : Nat} (only : OnlyPolls new)
    (came : ∀ later, arrives feed state deadline (polls new ++ later) = some (result, left)) :
    Looped feed state deadline (.ok (result, left)) new
  | stopped {new : History wireSig} {e : Error} (only : OnlyPolls new)
    (came : arrives feed state deadline (polls new) = none) :
    Looped feed state deadline (.error e) new
  | broken {new : History wireSig} {e : Error} (only : OnlyPolls new) (failed : PortFailed new) :
    Looped feed state deadline (.error e) new

/-- **Byte loops.** A loop ends with what arrives before its deadline, unless the port fails. -/
theorem eachByte_spec (operation : String) {count deadline : Nat} (hcount : deadline ≤ count)
    (state : σ) (self : D) (old : History wireSig) :
    (eachByte operation feed count state deadline : Host D _).wlp (.any wireSig)
      (fun _ _ _ => True)
      (fun result next h => next = self ∧ ∃ new, h = new ++ old ∧
        Looped feed state deadline result new) self old := by
  -- on the fuel of the loop, which the deadline never exceeds: each byte takes at least one poll
  induction count generalizing state deadline old with
  | zero =>
    obtain rfl : deadline = 0 := by omega
    exact ⟨rfl, [], rfl, .stopped (fun event hevent => absurd hevent List.not_mem_nil) rfl⟩
  | succ count ih =>
    refine Fallible.wlp_seq (readExactUntil_spec operation deadline self old) ?_ ?_
    · rintro e next h ⟨rfl, new, rfl, hwaited⟩
      refine ⟨rfl, new, rfl, ?_⟩
      cases hwaited with
      | expired only came =>
        refine .stopped only ?_
        have hnothing := @arrives_nothing σ α feed state deadline 0 []
        rw [Nat.add_zero, List.append_nil] at hnothing
        rw [came, hnothing]
        rfl
      | broken only failed => exact .broken only failed
    · rintro ⟨bytes, left⟩ next h ⟨rfl, new, rfl, hwaited⟩
      cases hwaited with
      | @arrived _ byte waited left only budget came =>
        -- the polls up to this byte are spent, and the byte is fed
        have hfirst : ∀ later, arrives feed state deadline (polls new ++ later) =
            arrives feed state (left + 1) (some byte :: later) := by
          intro later
          rw [came, budget, List.append_assoc, arrives_nothing]
          rfl
        show Fallible.wlp _ _ _ (Fallible.ofExcept (feed state byte) >>= _) _ _
        rcases hfeed : feed state byte with e | state' | result
        · refine ⟨rfl, new, rfl, .stopped only ?_⟩
          have hend := hfirst []
          rw [List.append_nil, arrives, hfeed] at hend
          exact hend
        · refine Fallible.wlp_mono (ih (show left ≤ count by omega) state' _) ?_
          rintro result next h ⟨rfl, more, rfl, hlooped⟩
          refine ⟨rfl, more ++ new, (List.append_assoc _ _ _).symm, ?_⟩
          have hgo : ∀ later, arrives feed state deadline (polls (more ++ new) ++ later) =
              arrives feed state' left (polls more ++ later) := by
            intro later
            rw [polls_append, List.append_assoc, hfirst, arrives, hfeed]
          cases hlooped with
          | completed only' came' =>
            exact .completed (only'.append only) fun later => (hgo later).trans (came' later)
          | stopped only' came' =>
            refine .stopped (only'.append only) ?_
            have hend := hgo []
            rw [List.append_nil, List.append_nil] at hend
            exact hend.trans came'
          | broken only' failed => exact .broken (only'.append only) (failed.new _)
        · refine ⟨rfl, new, rfl, .completed only fun later => ?_⟩
          rw [hfirst, arrives, hfeed]

end Loop

/-! ## A write of many bytes -/

/-- So many bytes are all taken, by what the port takes with each call until the deadline. -/
def takesAll : Nat → Nat → List (Option Nat) → Bool
  | 0, _, _ => true
  | _ + 1, 0, _ => false
  | _ + 1, _ + 1, [] => false
  | size + 1, left + 1, none :: rest => takesAll (size + 1) left rest
  | size + 1, left + 1, some count :: rest => takesAll (size + 1 - count) left rest

theorem takesAll_zero (left : Nat) (front : List (Option Nat)) : takesAll 0 left front = true := by
  rw [takesAll]

/-- What was taken is not changed by later calls. -/
theorem takesAll_append {size left : Nat} {front : List (Option Nat)}
    (h : takesAll size left front = true) (later : List (Option Nat)) :
    takesAll size left (front ++ later) = true := by
  induction front generalizing size left with
  | nil =>
    cases size with
    | zero => exact takesAll_zero _ _
    | succ size => cases left <;> cases h
  | cons offer front ih =>
    cases size with
    | zero => exact takesAll_zero _ _
    | succ size =>
      cases left with
      | zero => cases h
      | succ left =>
        rw [List.cons_append]
        cases offer with
        | none => exact ih h
        | some count => exact ih h

/-- The events of a loop that only writes. -/
def OnlyWrites (new : History wireSig) : Prop :=
  ∀ event ∈ new, event.op = .setTimeout ∨ event.op = .flush ∨ ∃ bytes, event.op = .write bytes

theorem OnlyWrites.append {new old : History wireSig} (hnew : OnlyWrites new)
    (hold : OnlyWrites old) : OnlyWrites (new ++ old) := by
  intro event hevent
  rcases List.mem_append.mp hevent with hevent | hevent
  · exact hnew event hevent
  · exact hold event hevent

theorem OnlyWrites.deadlines {new : History wireSig} (h : OnlyWrites new) : deadlines new = [] := by
  refine deadlines_eq_nil fun event hevent hop => ?_
  rcases h event hevent with hother | hother | ⟨bytes, hother⟩
  all_goals cases hop.symm.trans hother

theorem OnlyWrites.polls {new : History wireSig} (h : OnlyWrites new) : polls new = [] := by
  induction new with
  | nil => rfl
  | cons event new ih =>
    rw [FluxBridge.polls, ih fun event hevent => h event (List.mem_cons_of_mem _ hevent)]
    obtain ⟨op, ret⟩ := event
    rcases h _ List.mem_cons_self with hop | hop | ⟨bytes, hop⟩
    all_goals
      cases hop
      rfl

/-- How a write ends, from an empty history; later calls change nothing about it. -/
inductive Written {α : Type} (input : List Byte) (deadline : Nat) :
    Except Error α → History wireSig → Prop
  | taken {result : Except Error α} {new : History wireSig} (only : OnlyWrites new)
    (took : bytesTaken new = input)
    (came : ∀ later, takesAll input.length deadline (offers new ++ later) = true) :
    Written input deadline result new
  | expired {e : Error} {new : History wireSig} (only : OnlyWrites new)
    (took : (bytesTaken new).length < input.length)
    (came : takesAll input.length deadline (offers new) = false) :
    Written input deadline (.error e) new
  | broken {e : Error} {new : History wireSig} (failed : PortFailed new) :
    Written input deadline (.error e) new

section Write

variable {D α : Type}

theorem length_takenBy_le (input : List Byte) (answer : (WireOp.write input).Ret) :
    (takenBy ⟨.write input, answer⟩).length ≤ input.length := by
  cases answer with
  | ok count => exact List.length_take_le' count.val input
  | error kind => exact Nat.zero_le _

theorem takesAll_offered {input : List Byte} (hinput : input ≠ [])
    (answer : (WireOp.write input).Ret) (left : Nat) (rest : List (Option Nat)) :
    takesAll input.length (left + 1) (offered ⟨.write input, answer⟩ ++ rest) =
      takesAll (input.length - (takenBy ⟨.write input, answer⟩).length) left rest := by
  cases input with
  | nil => exact absurd rfl hinput
  | cons byte input =>
    cases answer with
    | ok count =>
      have hcount : ((byte :: input).take count).length = count :=
        List.length_take_of_le (Nat.le_of_lt_succ count.isLt)
      show _ = takesAll ((byte :: input).length - ((byte :: input).take count).length) left rest
      rw [hcount]
      rfl
    | error kind => rfl

/-- One call in front of a write of the bytes that it left. -/
theorem Written.later {input : List Byte} {deadline : Nat} {result : Except Error α}
    {new : History wireSig} {answer : (WireOp.write input).Ret} (hinput : input ≠ [])
    (h : Written (input.drop (takenBy ⟨.write input, answer⟩).length) deadline result new) :
    Written input (deadline + 1) result
      (new ++ [⟨.write input, answer⟩, ⟨.setTimeout, .ok ()⟩]) := by
  have honly : OnlyWrites [⟨.write input, answer⟩, ⟨.setTimeout, .ok ()⟩] := by
    intro event hevent
    rcases List.mem_pair.mp hevent with rfl | rfl
    · exact Or.inr (Or.inr ⟨input, rfl⟩)
    · exact Or.inl rfl
  have htaken : bytesTaken (new ++ [⟨.write input, answer⟩, ⟨.setTimeout, .ok ()⟩]) =
      takenBy ⟨.write input, answer⟩ ++ bytesTaken new := by
    rw [bytesTaken_append]
    rfl
  have hoffers : offers (new ++ [⟨.write input, answer⟩, ⟨.setTimeout, .ok ()⟩]) =
      offered ⟨.write input, answer⟩ ++ offers new := by
    rw [offers_append]
    rfl
  have hfront : takenBy ⟨.write input, answer⟩ =
      input.take (takenBy ⟨.write input, answer⟩).length := by
    cases answer with
    | ok count =>
      show input.take count = input.take (input.take count).length
      rw [List.length_take_of_le (Nat.le_of_lt_succ count.isLt)]
    | error kind => rfl
  have hle := length_takenBy_le input answer
  cases h with
  | taken only took came =>
    refine .taken (only.append honly) ?_ fun later => ?_
    · rw [htaken, took, hfront, List.length_take, Nat.min_eq_left hle, List.take_append_drop]
    · rw [hoffers, List.append_assoc, takesAll_offered hinput, ← List.length_drop]
      exact came later
  | expired only took came =>
    refine .expired (only.append honly) ?_ ?_
    · rw [htaken, List.length_append]
      rw [List.length_drop] at took
      omega
    · rw [hoffers, takesAll_offered hinput, ← List.length_drop]
      exact came
  | broken failed => exact .broken (failed.new _)

/-- **Writing.** A write ends with all its bytes taken where the calls take so many before its
deadline, and otherwise with fewer, unless the port fails. -/
theorem writeAllUntil_spec (operation : String) (input : List Byte) (deadline : Nat) (self : D)
    (old : History wireSig) :
    (writeAllUntil operation input deadline : Host D Nat).wlp (.any wireSig) (fun _ _ _ => True)
      (fun result next h => next = self ∧ ∃ new, h = new ++ old ∧ Written input deadline result new)
      self old := by
  have hempty : ∀ deadline old, (writeAllUntil operation [] deadline : Host D Nat).wlp
      (.any wireSig) (fun _ _ _ => True) (fun result next h => next = self ∧
        ∃ new, h = new ++ old ∧ Written [] deadline result new) self old := by
    intro deadline old
    unfold writeAllUntil
    refine ⟨trivial, fun answer _ => ?_⟩
    have honly : OnlyWrites [⟨.flush, answer⟩] := by
      intro event hevent
      rw [List.mem_singleton.mp hevent]
      exact Or.inr (Or.inl rfl)
    cases answer with
    | ok _ => exact ⟨rfl, [_], rfl, .taken honly rfl fun _ => takesAll_zero _ _⟩
    | error kind => exact ⟨rfl, [_], rfl, .taken honly rfl fun _ => takesAll_zero _ _⟩
  -- on the polls that are left: each call hands a front of the input to the port, or nothing
  induction deadline generalizing input old with
  | zero =>
    cases input with
    | nil => exact hempty 0 old
    | cons byte input =>
      exact ⟨rfl, [], rfl, .expired (fun event hevent => absurd hevent List.not_mem_nil)
        (Nat.succ_pos _) rfl⟩
  | succ deadline ih =>
    cases input with
    | nil => exact hempty _ old
    | cons byte input =>
      refine Fallible.wlp_seq (setTimeout_spec self old) ?_ ?_
      · rintro e next h ⟨rfl, rfl⟩
        exact ⟨rfl, [⟨.setTimeout, .error e⟩], rfl, .broken ⟨_, List.mem_singleton_self _, rfl⟩⟩
      · rintro _ next h ⟨rfl, rfl⟩
        refine ⟨trivial, fun answer _ => ?_⟩
        -- the rest of the bytes, behind a call that has taken some of them or timed out
        have hgo : ∀ rest, rest =
            (byte :: input).drop (takenBy ⟨.write (byte :: input), answer⟩).length →
            (writeAllUntil operation rest deadline : Host D Nat).wlp (.any wireSig)
              (fun _ _ _ => True) (fun result next' h => next' = next ∧ ∃ new, h = new ++ old ∧
                Written (byte :: input) (deadline + 1) result new) next
              (⟨.write (byte :: input), answer⟩ :: ⟨.setTimeout, .ok ()⟩ :: old) := by
          rintro _ rfl
          refine Fallible.wlp_mono (ih _ _) ?_
          rintro result _ h ⟨rfl, new, rfl, hwritten⟩
          exact ⟨rfl, new ++ [⟨.write (byte :: input), answer⟩, ⟨.setTimeout, .ok ()⟩],
            by rw [List.append_assoc]; rfl, hwritten.later (List.cons_ne_nil _ _)⟩
        cases answer with
        | ok count =>
          show Fallible.wlp _ _ _ (if count.val = 0 then _ else _) _ _
          split
          · next hzero =>
            refine ⟨rfl, [_, _], rfl, .broken ⟨_, List.mem_cons_self, ?_⟩⟩
            exact beq_iff_eq.mpr hzero
          · refine hgo _ ?_
            show _ = (byte :: input).drop ((byte :: input).take count).length
            rw [List.length_take_of_le (Nat.le_of_lt_succ count.isLt)]
        | error kind =>
          show Fallible.wlp _ _ _ (if kind.isTimeout then _ else _) _ _
          split
          · exact hgo _ rfl
          · next hkind =>
            refine ⟨rfl, [_, _], rfl, .broken ⟨_, List.mem_cons_self, ?_⟩⟩
            show (!kind.isTimeout) = true
            rw [Bool.eq_false_iff.mpr hkind]
            rfl

end Write

end FluxBridge
