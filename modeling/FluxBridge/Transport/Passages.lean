import FluxBridge.Transport.Wire
import Mathlib.Data.List.TakeWhile

/-!
# What was said on the wire

Every part of a conversation with an interface begins with a deadline. A history is read as the list
of these passages: what was sent and what was read, each since its deadline was set.

* `passages` — the passages of a history, the last one first
* `Adds` — code that adds given passages where it succeeds
* `Speaks` — code that goes on with the last passage
* `Adds.of_walk`, `Adds.walk_bind` — along a walk to a success
-/

namespace FluxBridge

open Atomic

/-- What was sent and what was read since a deadline was set. -/
structure Passage where
  sent : List Byte
  heard : List Byte
  deriving DecidableEq, Repr

namespace Passage

def empty : Passage := ⟨[], []⟩
def send (passage : Passage) (bytes : List Byte) : Passage :=
  { passage with sent := passage.sent ++ bytes }
def hear (passage : Passage) (bytes : List Byte) : Passage :=
  { passage with heard := passage.heard ++ bytes }

end Passage

/-- The passages of a history, the last one first. -/
def passages : History wireSig → List Passage
  | [] => []
  | ⟨.deadline, _⟩ :: h => .empty :: passages h
  | ⟨.write bytes, .ok count⟩ :: h => (passages h).modifyHead (·.send (bytes.take count))
  | ⟨.read _, .ok chunk⟩ :: h => (passages h).modifyHead (·.hear chunk.1)
  | _ :: h => passages h

namespace Passage

theorem modifyHead_self {f : Passage → Passage} (hf : ∀ passage, f passage = passage)
    (l : List Passage) : l.modifyHead f = l := by
  cases l with
  | nil => rfl
  | cons passage l => rw [List.modifyHead_cons, hf]

theorem modifyHead_twice {f g k : Passage → Passage} (h : ∀ passage, k passage = g (f passage))
    (l : List Passage) : l.modifyHead k = (l.modifyHead f).modifyHead g := by
  cases l with
  | nil => rfl
  | cons passage l => rw [List.modifyHead_cons, List.modifyHead_cons, List.modifyHead_cons, h]

/-- What was sent last, as a view. -/
def sending : Sending (List Passage) where
  view := passages
  send l bytes := l.modifyHead (·.send bytes)
  send_nil := modifyHead_self fun passage => by rw [send, List.append_nil]
  send_append l left right := modifyHead_twice
    (fun passage => by rw [send, send, send, ← List.append_assoc]) l
  view_write _ _ _ := rfl
  view_failed _ _ _ := rfl
  view_timeout _ _ := rfl
  view_flush _ _ := rfl

/-- What was read last, as a view. -/
def hearing : Taking (List Passage) where
  view := passages
  take l bytes := l.modifyHead (·.hear bytes)
  Comes _ _ := True
  take_nil := modifyHead_self fun passage => by rw [hear, List.append_nil]
  take_append l left right := modifyHead_twice
    (fun passage => by rw [hear, hear, hear, ← List.append_assoc]) l
  comes_nil _ := trivial
  comes_append _ _ _ _ _ := trivial
  view_read _ _ _ := rfl
  view_failed _ _ _ := rfl
  view_timeout _ _ := rfl

end Passage

variable {D α β : Type} {self : D}

/-- Calls of the port do not change the device. -/
theorem frame_self : Fallible.Frame (.any wireSig) (fun _ _ _ => True)
    (fun (l : D) _ => l = self) fun _ => True where
  ready _ _ _ _ _ := trivial
  keeps _ _ _ _ _ hself _ := hself

/-! ## Within a passage -/

/-- From a given passage, what the code makes of it where it succeeds. -/
def Speaks (m : Host D α) (self : D) (passage : Passage) (P : α → D → Passage → Prop) : Prop :=
  ∀ h rest, passages h = passage :: rest → m.wlp (.any wireSig) (fun _ _ _ => True)
    (fun result next h' => ∀ a, result = .ok a →
      ∃ passage', passages h' = passage' :: rest ∧ P a next passage') self h

section Speaks

variable {passage : Passage} {P : α → D → Passage → Prop}

theorem Speaks.bind {m : Host D α} {f : α → Host D β} {Q : β → D → Passage → Prop}
    (hm : Speaks m self passage P)
    (hf : ∀ a next passage', P a next passage' → Speaks (f a) next passage' Q) :
    Speaks (m >>= f) self passage Q := by
  intro h rest hrest
  refine Fallible.wlp_seq (hm h rest hrest) (fun _ _ _ _ => nofun) fun a next h₁ hR => ?_
  obtain ⟨passage', hrest', hP⟩ := hR a rfl
  exact hf a next passage' hP h₁ rest hrest'

theorem Speaks.mono {P' : α → D → Passage → Prop} {m : Host D α} (hm : Speaks m self passage P)
    (hP : ∀ a next passage', P a next passage' → P' a next passage') :
    Speaks m self passage P' := by
  intro h rest hrest
  refine Fallible.wlp_mono (hm h rest hrest) fun result next h' hR a ha => ?_
  obtain ⟨passage', hpassage, hP'⟩ := hR a ha
  exact ⟨passage', hpassage, hP a next passage' hP'⟩

theorem speaks_pure {a : α} (hP : P a self passage) : Speaks (pure a) self passage P := by
  rintro h rest hrest _ ⟨⟩
  exact ⟨passage, hrest, hP⟩

theorem speaks_ofExcept {result : Except Error α} (hP : ∀ a, result = .ok a → P a self passage) :
    Speaks (Fallible.ofExcept result) self passage P :=
  fun _ _ hrest a ha => ⟨passage, hrest, hP a ha⟩

theorem speaks_fail (e : Error) : Speaks (Fallible.fail e) self passage P := by
  rintro h rest hrest _ ⟨⟩

theorem speaks_writeAllUntil {operation : String} {input : List Byte} {deadline : Nat}
    {P : Nat → D → Passage → Prop} (hP : ∀ left, P left self (passage.send input)) :
    Speaks (writeAllUntil operation input deadline) self passage P := by
  intro h rest hrest
  refine Fallible.wlp_mono (Fallible.wlp_and
    (keeps_writeAllUntil frame_self trivial (fun _ => trivial) trivial operation input deadline
      self h rfl)
    (Passage.sending.writeAllUntil_wlp operation input deadline self h)) ?_
  rintro result next h' ⟨rfl, hsent⟩ left hleft
  refine ⟨passage.send input, ?_, hP left⟩
  rw [show passages h' = _ from hsent left hleft]
  exact congrArg (List.modifyHead _) hrest

theorem speaks_readExactUntil {operation : String} {count deadline : Nat}
    {P : List Byte × Nat → D → Passage → Prop}
    (hP : ∀ bytes left, bytes.length = count → P (bytes, left) self (passage.hear bytes)) :
    Speaks (readExactUntil operation count deadline) self passage P := by
  intro h rest hrest
  refine Fallible.wlp_mono (Fallible.wlp_and
    (keeps_readExactUntil frame_self trivial (fun _ => trivial) operation count deadline
      self h rfl)
    (Passage.hearing.readExactUntil_wlp (fun _ _ _ _ => trivial) operation count deadline self h))
    ?_
  rintro result next h' ⟨rfl, hheard⟩ ⟨bytes, left⟩ heq
  obtain ⟨hlength, -, hview⟩ := hheard bytes left heq
  refine ⟨passage.hear bytes, ?_, hP bytes left hlength⟩
  rw [show passages h' = _ from hview]
  exact congrArg (List.modifyHead _) hrest

/-- A call that says nothing. -/
theorem speaks_wire {o : WireOp} {P : o.Ret → D → Passage → Prop}
    (ho : ∀ r h, passages (⟨o, r⟩ :: h) = passages h) (hP : ∀ r, P r self passage) :
    Speaks (wire o) self passage P := by
  refine fun h rest hrest => ⟨trivial, fun r _ => ?_⟩
  rintro _ ⟨⟩
  exact ⟨passage, (ho r h).trans hrest, hP r⟩

theorem Speaks.after_setTimeout {f : Unit → Host D α} (hf : Speaks (f ()) self passage P) :
    Speaks (setTimeout >>= f) self passage P := by
  have htimeout : Speaks setTimeout self passage fun _ next passage' =>
      next = self ∧ passage' = passage :=
    (speaks_wire (o := .setTimeout) (P := fun _ next passage' => next = self ∧ passage' = passage)
      (fun _ _ => rfl) fun _ => ⟨rfl, rfl⟩).bind fun _ _ _ hnothing => by
        obtain ⟨rfl, rfl⟩ := hnothing
        exact speaks_ofExcept fun _ _ => ⟨rfl, rfl⟩
  refine htimeout.bind fun _ _ _ hnothing => ?_
  obtain ⟨rfl, rfl⟩ := hnothing
  exact hf

/-- One call of `read`. -/
theorem Speaks.after_read {room : Nat} {f : Except IoErrorKind (Chunk room) → Host D α}
    (hheard : ∀ chunk, Speaks (f (.ok chunk)) self (passage.hear chunk.1) P)
    (hfailed : ∀ kind, Speaks (f (.error kind)) self passage P) :
    Speaks (wire (.read room) >>= f) self passage P := by
  refine fun h rest hrest => ⟨trivial, fun answer _ => ?_⟩
  cases answer with
  | ok chunk => exact hheard chunk _ rest (congrArg (List.modifyHead _) hrest)
  | error kind => exact hfailed kind _ rest hrest

/-- Code that says nothing. -/
theorem speaks_of_keeps {J : D → Prop} {m : Host D α}
    (hm : ∀ said, m.Keeps (.any wireSig) (fun _ _ _ => True) fun l h => J l ∧ passages h = said)
    (hJ : J self) : Speaks m self passage fun _ next passage' => J next ∧ passage' = passage := by
  intro h rest hrest
  refine Fallible.wlp_mono (hm (passage :: rest) self h ⟨hJ, hrest⟩) ?_
  rintro result next h' ⟨hnext, hsaid⟩ _ _
  exact ⟨passage, hsaid, hnext, rfl⟩

/-- What a byte loop is fed until it ends. -/
inductive Fed {σ α : Type} (feed : σ → Byte → Except Error (σ ⊕ α)) : σ → List Byte → α → Prop
  | last {state : σ} {byte : Byte} {result : α} (ends : feed state byte = .ok (.inr result)) :
    Fed feed state [byte] result
  | more {state state' : σ} {byte : Byte} {bytes : List Byte} {result : α}
    (goes : feed state byte = .ok (.inl state')) (rest : Fed feed state' bytes result) :
    Fed feed state (byte :: bytes) result

/-- What stands at the end behind zeros stands there by itself, if it does not begin with one. -/
theorem suffix_of_zeros {pattern bytes : List Byte} (h : pattern.head? ≠ some 0)
    (hne : pattern ≠ []) (count : Nat) (hsuffix : pattern <:+ List.replicate count 0 ++ bytes) :
    pattern <:+ bytes := by
  induction count with
  | zero => exact hsuffix
  | succ count ih =>
    rw [List.replicate_succ, List.cons_append, List.suffix_cons_iff] at hsuffix
    rcases hsuffix with rfl | hsuffix
    · exact absurd rfl h
    · exact ih hsuffix

/-- A window moves on by one byte. -/
theorem shift_suffix (window bytes : List Byte) (byte : Byte) :
    window.tail ++ [byte] ++ bytes <:+ window ++ byte :: bytes := by
  obtain ⟨front, hfront⟩ := window.tail_suffix
  refine ⟨front, ?_⟩
  rw [List.append_assoc, ← List.append_assoc, hfront, List.singleton_append]

theorem Passage.hear_hear (passage : Passage) (left right : List Byte) :
    (passage.hear left).hear right = passage.hear (left ++ right) := by
  unfold Passage.hear
  rw [List.append_assoc]

theorem speaks_eachByte {σ : Type} {operation : String} {feed : σ → Byte → Except Error (σ ⊕ α)}
    (polls : Nat) (state : σ) (deadline : Nat) (passage : Passage) :
    Speaks (eachByte operation feed polls state deadline) self passage
      fun ended next passage' => next = self ∧
        ∃ bytes, Fed feed state bytes ended.1 ∧ passage' = passage.hear bytes := by
  induction polls generalizing state deadline passage with
  | zero => exact speaks_fail _
  | succ polls ih =>
    refine (speaks_readExactUntil fun bytes left hlength => ⟨rfl, hlength, rfl⟩ :
      Speaks _ _ _ fun (read : List Byte × Nat) next passage' => next = self ∧
        read.1.length = 1 ∧ passage' = passage.hear read.1).bind ?_
    rintro ⟨bytes, left⟩ self _ ⟨rfl, hlength, rfl⟩
    obtain ⟨byte, rfl⟩ := List.length_eq_one_iff.mp hlength
    refine (speaks_ofExcept (P := fun fed next passage' => next = self ∧
      feed state byte = .ok fed ∧ passage' = passage.hear [byte]) fun fed hfed =>
      ⟨rfl, hfed, rfl⟩).bind ?_
    rintro fed self _ ⟨rfl, hfed, rfl⟩
    cases fed with
    | inl state' =>
      refine (ih state' left (passage.hear [byte])).mono ?_
      rintro ended _ _ ⟨rfl, bytes, hbytes, rfl⟩
      exact ⟨rfl, byte :: bytes, .more hfed hbytes, passage.hear_hear [byte] bytes⟩
    | inr result => exact speaks_pure ⟨rfl, [byte], .last hfed, rfl⟩

/-- The bytes up to the first zero, the zero, and the rest. -/
theorem exists_terminator {bytes : List Byte} (h : 0 ∈ bytes) :
    ∃ tail, bytes = bytes.takeWhile (fun byte => byte ≠ 0) ++ 0 :: tail := by
  induction bytes with
  | nil => cases h
  | cons byte bytes ih =>
    by_cases hbyte : byte = 0
    · rw [hbyte]
      exact ⟨bytes, rfl⟩
    · obtain ⟨tail, htail⟩ := ih ((List.mem_cons.mp h).resolve_left fun hzero => hbyte hzero.symm)
      refine ⟨tail, ?_⟩
      rw [List.takeWhile_cons_of_pos (by simpa using hbyte), List.cons_append, ← htail]

/-- A stream ends with its first zero, or at the limit; what stands behind the zero is dropped. -/
theorem speaks_readTerminatedUntil {operation : String} {limit : Nat} (deadline : Nat)
    (stream : List Byte) (passage : Passage) :
    Speaks (readTerminatedUntil operation limit deadline stream) self passage
      fun result next passage' => next = self ∧ ∃ rest tail, result = stream ++ rest ∧ 0 ∉ rest ∧
        (limit ≤ result.length ∧ passage' = passage.hear rest ∨
          passage' = passage.hear (rest ++ 0 :: tail)) := by
  have hfull : ∀ (stream : List Byte) (passage : Passage), limit ≤ stream.length →
      Speaks (pure stream) self passage fun result next passage' => next = self ∧ ∃ rest tail,
        result = stream ++ rest ∧ 0 ∉ rest ∧ (limit ≤ result.length ∧ passage' = passage.hear rest ∨
          passage' = passage.hear (rest ++ 0 :: tail)) := by
    intro stream passage hlimit
    refine speaks_pure ⟨rfl, [], [], (List.append_nil _).symm, nofun, .inl ⟨hlimit, ?_⟩⟩
    unfold Passage.hear
    rw [List.append_nil]
  -- on the polls that are left: each brings a part of the stream, its end, or nothing
  induction deadline generalizing stream passage with
  | zero =>
    unfold readTerminatedUntil
    split
    · next hlimit => exact hfull stream passage hlimit
    · exact speaks_fail _
  | succ deadline ih =>
    unfold readTerminatedUntil
    split
    · next hlimit => exact hfull stream passage hlimit
    · refine Speaks.after_setTimeout (Speaks.after_read (fun chunk => ?_) fun kind => ?_)
      · obtain ⟨bytes, hroom⟩ := chunk
        cases bytes with
        | nil => exact speaks_fail _
        | cons byte bytes =>
          dsimp only
          split
          · next hzero =>
            obtain ⟨tail, htail⟩ := exists_terminator hzero
            refine speaks_pure ⟨rfl, _, tail, rfl, ?_, .inr (congrArg passage.hear htail)⟩
            exact fun hmem => by simpa using List.mem_takeWhile_imp hmem
          · next hzero =>
            refine (ih (stream ++ byte :: bytes) (passage.hear (byte :: bytes))).mono ?_
            rintro result _ _ ⟨rfl, rest, tail, rfl, hrest, hend⟩
            refine ⟨rfl, (byte :: bytes) ++ rest, tail, List.append_assoc _ _ _, ?_, ?_⟩
            · exact fun hmem => (List.mem_append.mp hmem).elim hzero hrest
            · rw [Passage.hear_hear, Passage.hear_hear, ← List.append_assoc] at hend
              exact hend
      · dsimp only
        split
        · exact ih stream passage
        · exact speaks_fail _

end Speaks

/-! ## Whole passages -/

/-- Where the code succeeds, it has added passages of which `P` holds. -/
def Adds (m : Host D α) (self : D) (P : α → D → List Passage → Prop) : Prop :=
  ∀ h, m.wlp (.any wireSig) (fun _ _ _ => True)
    (fun result next h' => ∀ a, result = .ok a →
      ∃ new, passages h' = new ++ passages h ∧ P a next new) self h

section Adds

variable {P : α → D → List Passage → Prop}

theorem Adds.mono {P' : α → D → List Passage → Prop} {m : Host D α} (hm : Adds m self P)
    (hP : ∀ a next new, P a next new → P' a next new) : Adds m self P' := by
  intro h
  refine Fallible.wlp_mono (hm h) fun result next h' hR a ha => ?_
  obtain ⟨new, hnew, hP'⟩ := hR a ha
  exact ⟨new, hnew, hP a next new hP'⟩

/-- Composition: the passages of the second stand in front. -/
theorem Adds.bind {m : Host D α} {f : α → Host D β} {Q : β → D → List Passage → Prop}
    (hm : Adds m self P)
    (hf : ∀ a next new, P a next new →
      Adds (f a) next fun b last later => Q b last (later ++ new)) :
    Adds (m >>= f) self Q := by
  intro h
  refine Fallible.wlp_seq (hm h) (fun _ _ _ _ => nofun) fun a next h₁ hR => ?_
  obtain ⟨new, hnew, hP⟩ := hR a rfl
  refine Fallible.wlp_mono (hf a next new hP h₁) fun result last h₂ hR₂ b hb => ?_
  obtain ⟨later, hlater, hQ⟩ := hR₂ b hb
  exact ⟨later ++ new, by rw [hlater, hnew, List.append_assoc], hQ⟩

/-- The second goes on with the passage of the first. -/
theorem Adds.speak {m : Host D α} {f : α → Host D β} {Q : β → D → List Passage → Prop}
    (hm : Adds m self P) (hf : ∀ a next new, P a next new → ∃ passage, new = [passage] ∧
      Speaks (f a) next passage fun b last passage' => Q b last [passage']) :
    Adds (m >>= f) self Q := by
  intro h
  refine Fallible.wlp_seq (hm h) (fun _ _ _ _ => nofun) fun a next h₁ hR => ?_
  obtain ⟨new, hnew, hP⟩ := hR a rfl
  obtain ⟨passage, rfl, hspeaks⟩ := hf a next new hP
  refine Fallible.wlp_mono (hspeaks h₁ (passages h) hnew) fun result last h₂ hR₂ b hb => ?_
  obtain ⟨passage', hpassage, hQ⟩ := hR₂ b hb
  exact ⟨[passage'], hpassage, hQ⟩

/-- From a given passage to its end, and on: where the code succeeds, `P` holds of what was
added. -/
def Ends (m : Host D α) (self : D) (passage : Passage) (P : α → D → List Passage → Prop) : Prop :=
  ∀ h rest, passages h = passage :: rest → m.wlp (.any wireSig) (fun _ _ _ => True)
    (fun result next h' => ∀ a, result = .ok a →
      ∃ new, passages h' = new ++ rest ∧ P a next new) self h

theorem Speaks.close {m : Host D α} {passage : Passage}
    (hm : Speaks m self passage fun a next passage' => P a next [passage']) :
    Ends m self passage P := by
  intro h rest hrest
  refine Fallible.wlp_mono (hm h rest hrest) fun result next h' hR a ha => ?_
  obtain ⟨passage', hpassage, hP⟩ := hR a ha
  exact ⟨[passage'], hpassage, hP⟩

theorem Speaks.ends {m : Host D α} {f : α → Host D β} {passage : Passage}
    {R : α → D → Passage → Prop} {Q : β → D → List Passage → Prop} (hm : Speaks m self passage R)
    (hf : ∀ a next passage', R a next passage' → Ends (f a) next passage' Q) :
    Ends (m >>= f) self passage Q := by
  intro h rest hrest
  refine Fallible.wlp_seq (hm h rest hrest) (fun _ _ _ _ => nofun) fun a next h₁ hR => ?_
  obtain ⟨passage', hrest', hR'⟩ := hR a rfl
  exact hf a next passage' hR' h₁ rest hrest'

theorem Adds.ends {m : Host D α} {passage : Passage}
    (hm : Adds m self fun a next new => P a next (new ++ [passage])) : Ends m self passage P := by
  intro h rest hrest
  refine Fallible.wlp_mono (hm h) fun result next h' hR a ha => ?_
  obtain ⟨new, hnew, hP⟩ := hR a ha
  refine ⟨new ++ [passage], ?_, hP⟩
  rw [hnew, hrest, List.append_assoc]
  rfl

/-- A deadline begins a passage. -/
theorem adds_deadline {f : Nat → Host D α} (hf : ∀ deadline, Ends (f deadline) self .empty P) :
    Adds (deadlineFromNow >>= f) self P :=
  fun h => ⟨trivial, fun deadline _ => hf deadline (⟨.deadline, deadline⟩ :: h) (passages h) rfl⟩

theorem adds_pure {a : α} (hP : P a self []) : Adds (pure a) self P := by
  rintro h _ ⟨⟩
  exact ⟨[], rfl, hP⟩

theorem adds_fail (e : Error) : Adds (Fallible.fail e) self P := by
  rintro h _ ⟨⟩

theorem adds_ofExcept {result : Except Error α} (hP : ∀ a, result = .ok a → P a self []) :
    Adds (Fallible.ofExcept result) self P :=
  fun _ a ha => ⟨[], rfl, hP a ha⟩

theorem adds_self {P : D → D → List Passage → Prop} (hP : P self self []) :
    Adds Fallible.self self P := by
  rintro h _ ⟨⟩
  exact ⟨[], rfl, hP⟩

theorem adds_modify {f : D → D} {P : Unit → D → List Passage → Prop} (hP : P () (f self) []) :
    Adds (Fallible.modify f) self P := by
  rintro h _ ⟨⟩
  exact ⟨[], rfl, hP⟩

/-- A call that says nothing. -/
theorem adds_wire {o : WireOp} {P : o.Ret → D → List Passage → Prop}
    (ho : ∀ r h, passages (⟨o, r⟩ :: h) = passages h) (hP : ∀ r, P r self []) :
    Adds (wire o) self P := by
  refine fun h => ⟨trivial, fun r _ => ?_⟩
  rintro _ ⟨⟩
  exact ⟨[], ho r h, hP r⟩

theorem adds_orPanic {value : Option α} (hP : ∀ a, value = some a → P a self []) :
    Adds (orPanic value) self P := by
  cases value with
  | some a => exact adds_pure (hP a rfl)
  | none => exact fun _ => ⟨trivial, fun r _ => r.elim⟩

theorem adds_setTimeout {P : Unit → D → List Passage → Prop} (hP : P () self []) :
    Adds setTimeout self P :=
  (adds_wire (o := .setTimeout) (P := fun _ next new => next = self ∧ new = []) (fun _ _ => rfl)
    fun _ => ⟨rfl, rfl⟩).bind fun _ _ _ hnothing => by
      obtain ⟨rfl, rfl⟩ := hnothing
      exact adds_ofExcept fun _ _ => hP

theorem adds_purge {P : Unit → D → List Passage → Prop} (hP : P () self []) : Adds purge self P :=
  (adds_wire (o := .purge) (P := fun _ next new => next = self ∧ new = []) (fun _ _ => rfl)
    fun _ => ⟨rfl, rfl⟩).bind fun _ _ _ hnothing => by
      obtain ⟨rfl, rfl⟩ := hnothing
      exact adds_ofExcept fun _ _ => hP

end Adds

/-- Code that adds nothing, within a passage. -/
theorem Adds.speaks {m : Host D α} {passage : Passage} {R : α → D → Prop}
    (hm : Adds m self fun a next new => new = [] ∧ R a next) :
    Speaks m self passage fun a next passage' => passage' = passage ∧ R a next := by
  intro h rest hrest
  refine Fallible.wlp_mono (hm h) fun result next h' hR a ha => ?_
  obtain ⟨_, hnew, rfl, hR⟩ := hR a ha
  exact ⟨passage, hnew.trans hrest, rfl, hR⟩

/-- Along a walk to a success. -/
theorem Adds.of_walk {m : Host D α} {P : α → D → List Passage → Prop} (hm : Adds m self P)
    {next : D} {a : α} {h h' : History wireSig}
    (hwalk : Walk (.any wireSig) (.ret next (.ok a)) h' (m self) h) :
    ∃ new, passages h' = new ++ passages h ∧ P a next new :=
  hwalk.wlp (hm h) a rfl

/-- The first part of a walk to a success, and the rest of it. -/
theorem Adds.walk_bind {m : Host D α} {f : α → Host D β} {P : α → D → List Passage → Prop}
    (hm : Adds m self P) {next : D} {b : β} {h h' : History wireSig}
    (hwalk : Walk (.any wireSig) (.ret next (.ok b)) h' ((m >>= f) self) h) :
    ∃ a between new h₁, passages h₁ = new ++ passages h ∧ P a between new ∧
      Walk (.any wireSig) (.ret next (.ok b)) h' (f a between) h₁ := by
  obtain ⟨between, a, h₁, hfirst, hrest⟩ := Fallible.walk_split hwalk
  obtain ⟨new, hnew, hP⟩ := hm.of_walk hfirst
  exact ⟨a, between, new, h₁, hnew, hP, hrest⟩

end FluxBridge
