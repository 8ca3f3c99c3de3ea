import FluxBridge.Atomic.History
import FluxBridge.Types

/-!
# Bounded transports

`src/transport/mod.rs`: the calls a backend makes of its serial port, and the three loops around
them. What the port answers and when a deadline passes is up to the surroundings.

A deadline is represented by the number of polls that begin before it passes, which the clock fixes
when the deadline is set. Every pass of a loop is a poll.
-/

namespace FluxBridge

open Atomic

/-- The ceiling of a stream, the same in every backend. -/
def MAX_STREAM_BYTES : Nat := 1 <<< 20

/-- What a `read` call returns at most. -/
abbrev Chunk (room : Nat) : Type := { bytes : List Byte // bytes.length ≤ room }

/-- The calls of the `Transport` trait, the clock, and what a backend makes known. -/
inductive WireOp where
  | deadline
  | setTimeout
  | read (room : Nat)
  | write (bytes : List Byte)
  | flush
  | purge
  | setCtsFlowControl (enabled : Bool)
  | setDtr (asserted : Bool)
  | setRts (asserted : Bool)
  /-- the `progress` callback of a read -/
  | progress (words : List (BitVec 16)) (bitLen : Nat)
  | panic
  /-- not in the source: the interface has accepted a command -/
  | accepted (command : Byte)
  deriving DecidableEq

@[reducible] def WireOp.Ret : WireOp → Type
  | .deadline => Nat
  | .read room => Except IoErrorKind (Chunk room)
  | .write bytes => Except IoErrorKind (Fin (bytes.length + 1))
  | .flush => Except IoErrorKind Unit
  | .setTimeout | .purge | .setCtsFlowControl _ | .setDtr _ | .setRts _ => Except Error Unit
  | .progress _ _ | .accepted _ => Unit
  | .panic => Empty

@[reducible] def wireSig : Sig where
  Op := WireOp
  Ret := WireOp.Ret

/-- The code of a backend whose fields are `D`. -/
abbrev Host (D α : Type) : Type := Fallible wireSig D Error α

/-- Performs one call, in any backend. -/
abbrev wire {D : Type} (o : WireOp) : Host D o.Ret := Fallible.perform (S := wireSig) o

/-- A value, or a panic: the thread does nothing any more. -/
def orPanic {D α : Type} : Option α → Host D α
  | some a => pure a
  | none => do
    let never ← wire .panic
    never.elim

/-- The errors of the port a loop waits over. -/
def IoErrorKind.isTimeout : IoErrorKind → Bool
  | .timedOut | .wouldBlock => true
  | _ => false

variable {D : Type}

/-- `transport.set_timeout(..)?` -/
def setTimeout : Host D Unit := do
  let result ← wire .setTimeout
  Fallible.ofExcept result

/-- `Instant::now() + ..` -/
def deadlineFromNow : Host D Nat := wire .deadline

/-- `transport.purge()?` -/
def purge : Host D Unit := do
  let result ← wire .purge
  Fallible.ofExcept result

/-- Reads `count` bytes until the deadline; also returns what is left of the deadline. -/
def readExactUntil (operation : String) : Nat → Nat → Host D (List Byte × Nat)
  | 0, deadline => pure ([], deadline)
  | _ + 1, 0 => Fallible.fail (.timeout operation)
  | count + 1, deadline + 1 => do
    setTimeout
    let answer ← wire (.read (count + 1))
    match answer with
    | .ok ⟨[], _⟩ => Fallible.fail .disconnected
    | .ok ⟨bytes, _⟩ => do
      let (rest, deadline) ← readExactUntil operation (count + 1 - bytes.length) deadline
      pure (bytes ++ rest, deadline)
    | .error kind =>
      if kind.isTimeout then readExactUntil operation (count + 1) deadline
      else Fallible.fail (.io kind)
termination_by structural _ deadline => deadline

/-- Writes all the bytes until the deadline; returns what is left of the deadline. -/
def writeAllUntil (operation : String) : List Byte → Nat → Host D Nat
  | [], deadline => do
    let answer ← wire .flush
    match answer with
    | .ok () => pure deadline
    | .error kind => Fallible.fail (.io kind)
  | _ :: _, 0 => Fallible.fail (.timeout operation)
  | byte :: input, deadline + 1 => do
    setTimeout
    let answer ← wire (.write (byte :: input))
    match answer with
    | .ok written =>
      if written.val = 0 then Fallible.fail .disconnected
      else writeAllUntil operation ((byte :: input).drop written) deadline
    | .error kind =>
      if kind.isTimeout then writeAllUntil operation (byte :: input) deadline
      else Fallible.fail (.io kind)
termination_by structural _ deadline => deadline

/-- How much the loops over a whole stream read at once. -/
def CHUNK_BYTES : Nat := 8 * 1024

/-- Reads until the zero that ends a stream, or until the limit, behind what was read already. -/
def readTerminatedUntil (operation : String) (limit : Nat) : Nat → List Byte → Host D (List Byte)
  | 0, stream => if limit ≤ stream.length then pure stream else Fallible.fail (.timeout operation)
  | deadline + 1, stream =>
    if limit ≤ stream.length then pure stream
    else do
      setTimeout
      let answer ← wire (.read CHUNK_BYTES)
      match answer with
      | .ok ⟨[], _⟩ => Fallible.fail .disconnected
      | .ok ⟨bytes, _⟩ =>
        if 0 ∈ bytes then pure (stream ++ bytes.takeWhile fun byte => byte ≠ 0)
        else readTerminatedUntil operation limit deadline (stream ++ bytes)
      | .error kind =>
        if kind.isTimeout then readTerminatedUntil operation limit deadline stream
        else Fallible.fail (.io kind)
termination_by structural deadline => deadline

/--
A loop that reads one byte after the other: `feed` goes on, ends with a result, or fails. There are
no more bytes than polls.
-/
def eachByte {σ α : Type} (operation : String) (feed : σ → Byte → Except Error (σ ⊕ α)) :
    Nat → σ → Nat → Host D (α × Nat)
  | 0, _, _ => Fallible.fail (.timeout operation)
  | polls + 1, state, deadline => do
    let (bytes, deadline) ← readExactUntil operation 1 deadline
    let next ← Fallible.ofExcept (feed state (bytes.headD 0))
    match next with
    | .inl state => eachByte operation feed polls state deadline
    | .inr result => pure (result, deadline)

section Keeps

variable {env : Env wireSig} {N : D → WireOp → History wireSig → Prop}
  {J : D → History wireSig → Prop} {ops : WireOp → Prop}

theorem keeps_setTimeout (hframe : Fallible.Frame env N J ops) (ho : ops .setTimeout) :
    (setTimeout : Host D Unit).Keeps env N J :=
  (hframe.perform ho).bind fun _ => Fallible.keeps_ofExcept _

theorem keeps_purge (hframe : Fallible.Frame env N J ops) (ho : ops .purge) :
    (purge : Host D Unit).Keeps env N J :=
  (hframe.perform ho).bind fun _ => Fallible.keeps_ofExcept _

theorem keeps_orPanic {α : Type} (hframe : Fallible.Frame env N J ops) (ho : ops .panic)
    (value : Option α) : (orPanic value : Host D α).Keeps env N J := by
  cases value with
  | some a => exact Fallible.keeps_pure a
  | none => exact (hframe.perform ho).bind fun never => never.elim

theorem keeps_readExactUntil (hframe : Fallible.Frame env N J ops) (htimeout : ops .setTimeout)
    (hread : ∀ room, ops (.read room)) (operation : String) (count deadline : Nat) :
    (readExactUntil operation count deadline : Host D _).Keeps env N J := by
  induction deadline generalizing count with
  | zero =>
    cases count with
    | zero => exact Fallible.keeps_pure _
    | succ count => exact Fallible.keeps_fail _
  | succ deadline ih =>
    cases count with
    | zero => exact Fallible.keeps_pure _
    | succ count =>
      refine (keeps_setTimeout hframe htimeout).bind fun _ =>
        (hframe.perform (hread _)).bind fun answer => ?_
      split
      · exact Fallible.keeps_fail _
      · exact (ih _).bind fun _ => Fallible.keeps_pure _
      · split
        · exact ih _
        · exact Fallible.keeps_fail _

theorem keeps_writeAllUntil (hframe : Fallible.Frame env N J ops) (htimeout : ops .setTimeout)
    (hwrite : ∀ bytes, ops (.write bytes)) (hflush : ops .flush) (operation : String)
    (input : List Byte) (deadline : Nat) :
    (writeAllUntil operation input deadline : Host D _).Keeps env N J := by
  have hempty : ∀ deadline, (writeAllUntil operation [] deadline : Host D _).Keeps env N J := by
    intro deadline
    unfold writeAllUntil
    refine (hframe.perform hflush).bind fun answer => ?_
    split
    · exact Fallible.keeps_pure _
    · exact Fallible.keeps_fail _
  induction deadline generalizing input with
  | zero =>
    cases input with
    | nil => exact hempty 0
    | cons byte input => exact Fallible.keeps_fail _
  | succ deadline ih =>
    cases input with
    | nil => exact hempty _
    | cons byte input =>
      refine (keeps_setTimeout hframe htimeout).bind fun _ =>
        (hframe.perform (hwrite _)).bind fun answer => ?_
      split
      · split
        · exact Fallible.keeps_fail _
        · exact ih _
      · split
        · exact ih _
        · exact Fallible.keeps_fail _

theorem keeps_readTerminatedUntil (hframe : Fallible.Frame env N J ops)
    (htimeout : ops .setTimeout) (hread : ∀ room, ops (.read room)) (operation : String)
    (limit deadline : Nat) (stream : List Byte) :
    (readTerminatedUntil operation limit deadline stream : Host D _).Keeps env N J := by
  induction deadline generalizing stream with
  | zero =>
    unfold readTerminatedUntil
    split
    · exact Fallible.keeps_pure _
    · exact Fallible.keeps_fail _
  | succ deadline ih =>
    unfold readTerminatedUntil
    split
    · exact Fallible.keeps_pure _
    · refine (keeps_setTimeout hframe htimeout).bind fun _ =>
        (hframe.perform (hread _)).bind fun answer => ?_
      split
      · exact Fallible.keeps_fail _
      · split
        · exact Fallible.keeps_pure _
        · exact ih _
      · split
        · exact ih _
        · exact Fallible.keeps_fail _

theorem keeps_eachByte {σ α : Type} (hframe : Fallible.Frame env N J ops)
    (htimeout : ops .setTimeout) (hread : ∀ room, ops (.read room)) (operation : String)
    (feed : σ → Byte → Except Error (σ ⊕ α)) (polls : Nat) (state : σ) (deadline : Nat) :
    (eachByte operation feed polls state deadline : Host D _).Keeps env N J := by
  induction polls generalizing state deadline with
  | zero => exact Fallible.keeps_fail _
  | succ polls ih =>
    refine (keeps_readExactUntil hframe htimeout hread operation 1 deadline).bind fun read =>
      (Fallible.keeps_ofExcept _).bind fun next => ?_
    cases next with
    | inl state => exact ih _ _
    | inr result => exact Fallible.keeps_pure _

end Keeps

/-! ## What a history says of the bytes -/

/-- What a history says of the bytes that were written: `send` adds those one call has taken. -/
structure Sending (σ : Type) where
  view : History wireSig → σ
  send : σ → List Byte → σ
  send_nil : ∀ s, send s [] = s
  send_append : ∀ s left right, send s (left ++ right) = send (send s left) right
  view_write : ∀ (bytes : List Byte) (count : Fin (bytes.length + 1)) h,
    view (⟨.write bytes, .ok count⟩ :: h) = send (view h) (bytes.take count)
  view_failed : ∀ bytes kind h, view (⟨.write bytes, .error kind⟩ :: h) = view h
  view_timeout : ∀ r h, view (⟨.setTimeout, r⟩ :: h) = view h
  view_flush : ∀ r h, view (⟨.flush, r⟩ :: h) = view h

/-- What a history says of the bytes that were read: `take` adds those of one call, and `Comes`
tells which bytes there can be. -/
structure Taking (σ : Type) where
  view : History wireSig → σ
  take : σ → List Byte → σ
  Comes : σ → List Byte → Prop
  take_nil : ∀ s, take s [] = s
  take_append : ∀ s left right, take s (left ++ right) = take (take s left) right
  comes_nil : ∀ s, Comes s []
  comes_append : ∀ s left right, Comes s left → Comes (take s left) right →
    Comes s (left ++ right)
  view_read : ∀ (room : Nat) (chunk : Chunk room) h,
    view (⟨.read room, .ok chunk⟩ :: h) = take (view h) chunk.1
  view_failed : ∀ room kind h, view (⟨.read room, .error kind⟩ :: h) = view h
  view_timeout : ∀ r h, view (⟨.setTimeout, r⟩ :: h) = view h

section Views

variable {σ : Type} {env : Env wireSig}

/-- The bytes that were written until the deadline are the input. -/
theorem Sending.writeAllUntil_wlp (V : Sending σ) (operation : String) (input : List Byte)
    (deadline : Nat) (self : D) (h : History wireSig) :
    (writeAllUntil operation input deadline : Host D Nat).wlp env (fun _ _ _ => True)
      (fun result _ h' => ∀ left, result = .ok left → V.view h' = V.send (V.view h) input)
      self h := by
  have hempty : ∀ deadline h, (writeAllUntil operation [] deadline : Host D Nat).wlp env
      (fun _ _ _ => True)
      (fun result _ h' => ∀ left, result = .ok left → V.view h' = V.send (V.view h) [])
      self h := by
    intro deadline h
    unfold writeAllUntil
    refine ⟨trivial, fun answer _ => ?_⟩
    cases answer with
    | ok _ => exact fun _ _ => (V.view_flush _ h).trans (V.send_nil _).symm
    | error kind => exact nofun
  -- on the polls that are left: each hands a front of the input to the port, or nothing
  induction deadline generalizing input h with
  | zero =>
    cases input with
    | nil => exact hempty 0 h
    | cons byte input => exact nofun
  | succ deadline ih =>
    cases input with
    | nil => exact hempty _ h
    | cons byte input =>
      refine Fallible.wlp_seq (R := fun _ next h' => next = self ∧ V.view h' = V.view h)
        ⟨trivial, fun r _ => ⟨rfl, V.view_timeout r h⟩⟩ (fun e _ _ _ => nofun) ?_
      rintro _ next h₁ ⟨rfl, hsame⟩
      refine ⟨trivial, fun answer _ => ?_⟩
      cases answer with
      | ok count =>
        show Fallible.wlp _ _ _ (if count.val = 0 then _ else _) _ _
        split
        · exact nofun
        · refine Fallible.wlp_mono (ih _ _) fun result _ h' hrest left hleft => ?_
          rw [hrest left hleft, V.view_write, hsame, ← V.send_append, List.take_append_drop]
      | error kind =>
        show Fallible.wlp _ _ _ (if kind.isTimeout then _ else _) _ _
        split
        · refine Fallible.wlp_mono (ih _ _) fun result _ h' hrest left hleft => ?_
          rw [hrest left hleft, V.view_failed, hsame]
        · exact nofun

/-- The bytes that were read until the deadline are so many, and could come. -/
theorem Taking.readExactUntil_wlp (V : Taking σ)
    (henv : ∀ h room chunk, env h (.read room) (.ok chunk) → V.Comes (V.view h) chunk.1)
    (operation : String) (count deadline : Nat) (self : D) (h : History wireSig) :
    (readExactUntil operation count deadline : Host D _).wlp env (fun _ _ _ => True)
      (fun result _ h' => ∀ bytes left, result = .ok (bytes, left) →
        bytes.length = count ∧ V.Comes (V.view h) bytes ∧ V.view h' = V.take (V.view h) bytes)
      self h := by
  have hnone : ∀ deadline h, (readExactUntil operation 0 deadline : Host D _).wlp env
      (fun _ _ _ => True)
      (fun result _ h' => ∀ bytes left, result = .ok (bytes, left) →
        bytes.length = 0 ∧ V.Comes (V.view h) bytes ∧ V.view h' = V.take (V.view h) bytes)
      self h := by
    intro deadline h
    have hpure : (readExactUntil operation 0 deadline : Host D _) = pure ([], deadline) := by
      cases deadline <;> rfl
    rw [hpure]
    intro bytes left heq
    cases heq
    exact ⟨rfl, V.comes_nil _, (V.take_nil _).symm⟩
  -- on the polls that are left: each takes the next bytes, or nothing
  induction deadline generalizing count h with
  | zero =>
    cases count with
    | zero => exact hnone 0 h
    | succ count => exact nofun
  | succ deadline ih =>
    cases count with
    | zero => exact hnone _ h
    | succ count =>
      refine Fallible.wlp_seq (R := fun _ next h' => next = self ∧ V.view h' = V.view h)
        ⟨trivial, fun r _ => ⟨rfl, V.view_timeout r h⟩⟩ (fun e _ _ _ => nofun) ?_
      rintro _ next h₁ ⟨rfl, hsame⟩
      refine ⟨trivial, fun answer hanswer => ?_⟩
      rcases answer with kind | ⟨chunk, hroom⟩
      · show Fallible.wlp _ _ _ (if kind.isTimeout then _ else _) _ _
        split
        · refine Fallible.wlp_mono (ih _ _) fun result _ h' hrest bytes left heq => ?_
          obtain ⟨hlength, hcomes, hview⟩ := hrest bytes left heq
          rw [V.view_failed, hsame] at hcomes hview
          exact ⟨hlength, hcomes, hview⟩
        · exact nofun
      · cases chunk with
        | nil => exact nofun
        | cons byte chunk =>
          show Fallible.wlp _ _ _ (readExactUntil operation (count + 1 - (byte :: chunk).length)
            deadline >>= fun read => pure ((byte :: chunk) ++ read.1, read.2)) _ _
          refine Fallible.wlp_seq (ih _ _) (fun e _ _ _ => nofun) ?_
          rintro ⟨rest, left⟩ _ h' hrest bytes _ heq
          cases heq
          obtain ⟨hlength, hcomes, hview⟩ := hrest rest left rfl
          rw [V.view_read, hsame] at hcomes hview
          have hchunk := henv _ _ _ hanswer
          rw [hsame] at hchunk
          refine ⟨?_, V.comes_append _ _ _ hchunk hcomes, ?_⟩
          · rw [List.length_append, hlength]
            omega
          · rw [hview, V.take_append]

end Views

/-- A port that takes everything and reads the given bytes one after the other, until it is to
write `last`. -/
def answering (bytes : List Byte) (last : List Byte) (h : History wireSig) :
    (o : WireOp) → Option o.Ret
  | .deadline => some 100
  | .read room =>
    let taken := h.countP fun event => match event.op with | .read _ => true | _ => false
    match room, bytes[taken]? with
    | room + 1, some byte => some (.ok ⟨[byte], Nat.le_add_left 1 room⟩)
    | _, _ => none
  | .write bytes => if bytes = last then none else some (.ok (Fin.last bytes.length))
  | .flush => some (.ok ())
  | .setTimeout | .purge | .setCtsFlowControl _ | .setDtr _ | .setRts _ => some (.ok ())
  | .progress _ _ | .accepted _ => some ()
  | .panic => none

/-- A character as the source writes it in a byte string. -/
def ascii (c : Char) : Byte := BitVec.ofNat 8 c.toNat

/-- `0x2a`, as in messages. -/
def hexByte (byte : Byte) : String :=
  "0x" ++ String.ofList [Nat.digitChar (byte.toNat / 16), Nat.digitChar (byte.toNat % 16)]

end FluxBridge
