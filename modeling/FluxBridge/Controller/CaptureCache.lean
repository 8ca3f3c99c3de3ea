import FluxBridge.Controller.Frames

/-!
# The capture cache, step by step

* `exec_queue` — a step keeps the order of each queue, and only `storeCapture` adds to one
* `exec_leaves` — the ways a capture can leave its queue
* `exec_bounded` — at most eight tracks, at most two readings of each
-/

namespace FluxBridge

namespace World

/-- The cache holds at most eight tracks and two readings of each. -/
structure Bounded (w : World) : Prop where
  tracks : w.captures.keys.length ≤ MAX_CACHED_TRACKS
  readings : ∀ track, (w.queue track).length ≤ CAPTURES_PER_TRACK

/-! ## Queues -/

theorem queue_eq_of_captures {w w' : World} (h : w'.captures = w.captures) (track : TrackAddress) :
    w'.queue track = w.queue track := by
  unfold queue
  rw [h]

theorem queue_erase {w : World} {captures : CaptureCache} {key track : TrackAddress}
    (hw : w.captures = captures.erase key) :
    w.queue track = if track = key then [] else (captures.lookup track).getD [] := by
  unfold queue
  rw [hw]
  by_cases h : track = key
  · rw [h, AList.lookup_erase, if_pos rfl]
    rfl
  · rw [AList.lookup_erase_ne h, if_neg h]

theorem queue_insert {w : World} {captures : CaptureCache} {key track : TrackAddress}
    {queue : List Cached} (hw : w.captures = captures.insert key queue) :
    w.queue track = if track = key then queue else (captures.lookup track).getD [] := by
  unfold World.queue
  rw [hw]
  by_cases h : track = key
  · rw [h, AList.lookup_insert, if_pos rfl]
    rfl
  · rw [AList.lookup_insert_ne h, if_neg h]

theorem length_keys_insert {captures : CaptureCache} {key : TrackAddress} {queue : List Cached} :
    (captures.insert key queue).keys.length =
      if key ∈ captures then captures.keys.length else captures.keys.length + 1 := by
  rw [AList.keys_insert]
  by_cases h : key ∈ captures
  · have hmem : key ∈ captures.keys := AList.mem_keys.mp h
    have hpos : 0 < captures.keys.length := List.length_pos_of_mem hmem
    rw [if_pos h, List.length_cons, List.length_erase_of_mem hmem]
    omega
  · rw [if_neg h, List.length_cons, List.erase_of_not_mem (fun hc => h (AList.mem_keys.mpr hc))]

/-! ## Retiring -/

theorem queue_retire {w : World} {key track : TrackAddress} :
    (w.retire key).queue track = if track = key then (w.queue key).tail else w.queue track := by
  unfold retire
  cases hl : w.captures.lookup key with
  | some captures =>
    dsimp only
    rw [queue_insert rfl]
    simp only [queue, hl, Option.getD_some]
  | none =>
    have hempty : w.queue key = [] := by simp [queue, hl]
    by_cases h : track = key
    · rw [if_pos h, h, hempty]
      rfl
    · rw [if_neg h]

/-! ## Storing -/

/-- What is evicted is a cached track, and not the one there has to be room for. -/
theorem evicted_eq_some {captures : CaptureCache} {track key : TrackAddress} {victim : Nat}
    (h : evicted captures track victim = some key) : key ∈ captures ∧ key ≠ track := by
  unfold evicted at h
  split at h
  · have hmem := List.mem_of_getElem? h
    rw [List.mem_filter] at hmem
    exact ⟨AList.mem_keys.mp hmem.1, by simpa using hmem.2⟩
  · cases h

/-- The readings of the other tracks, apart from the one that is evicted. -/
theorem lookup_evict {captures : CaptureCache} {key track : TrackAddress} {victim : Nat} :
    (evict captures key victim).lookup track =
      if evicted captures key victim = some track then none else captures.lookup track := by
  unfold evict
  cases hevicted : evicted captures key victim with
  | none => simp
  | some other =>
    dsimp only
    by_cases htrack : other = track
    · rw [htrack, AList.lookup_erase, if_pos rfl]
    · rw [AList.lookup_erase_ne fun h => htrack h.symm, if_neg fun h => htrack (by simpa using h)]

theorem length_keys_evict {captures : CaptureCache} {track : TrackAddress}
    (hle : captures.keys.length ≤ MAX_CACHED_TRACKS) (hnew : track ∉ captures) (victim : Nat) :
    (evict captures track victim).keys.length < MAX_CACHED_TRACKS := by
  unfold evict
  cases hevicted : evicted captures track victim with
  | some key =>
    have hmem := AList.mem_keys.mpr (evicted_eq_some hevicted).1
    have hpos := List.length_pos_of_mem hmem
    rw [AList.keys_erase, List.length_erase_of_mem hmem]
    omega
  | none =>
    -- a full cache has other tracks, so one of them would have been dropped
    show captures.keys.length < MAX_CACHED_TRACKS
    by_contra hfull
    have hall : captures.keys.filter (fun key => key ≠ track) = captures.keys := by
      rw [List.filter_eq_self]
      intro key hkey
      have hne : key ≠ track := fun h => hnew (h ▸ AList.mem_keys.mpr hkey)
      simpa using hne
    have hpos : 0 < captures.keys.length := by
      have : 0 < MAX_CACHED_TRACKS := by decide
      omega
    unfold evicted at hevicted
    rw [if_pos ⟨by omega, hnew⟩, hall, List.getElem?_eq_none_iff] at hevicted
    exact absurd (Nat.mod_lt victim hpos) (by omega)

/-- The queues after a store: the capture is added to one, and another may be evicted. -/
theorem queue_store {w : World} {key track : TrackAddress} {capture : TrackCapture}
    {victim : Nat} : (w.store key capture victim).queue track =
      if track = key then
        (if CAPTURES_PER_TRACK ≤ (w.queue key).length then (w.queue key).tail else w.queue key)
          ++ [⟨capture, w.lastRead⟩]
      else if evicted w.captures key victim = some track then [] else w.queue track := by
  have hsame : (evict w.captures key victim).lookup key = w.captures.lookup key := by
    rw [lookup_evict, if_neg fun h => (evicted_eq_some h).2 rfl]
  unfold store
  rw [queue_insert rfl, hsame]
  by_cases htrack : track = key
  · rw [if_pos htrack, if_pos htrack]
    rfl
  · rw [if_neg htrack, if_neg htrack, lookup_evict]
    split
    · rfl
    · rfl

end World

/-- What a step adds to the queue of a track. -/
def Op.stored (o : Op) (w : World) (track : TrackAddress) : List Cached :=
  match o with
  | .storeCapture key capture => if track = key then [⟨capture, w.lastRead⟩] else []
  | _ => []

section Steps

variable {o : Op} {i : Outside} {w w' : World} {r : o.Ret}

theorem exec_retireFront {key : TrackAddress} {front : Option Cached}
    (h : exec (.retireFront key) i w = some (front, w')) :
    front = w.front key ∧ w' = w.retire key := by
  simp only [exec, Option.some.injEq, Prod.mk.injEq] at h
  exact ⟨h.1.symm, h.2.symm⟩

theorem exec_invalidate {key : TrackAddress} {r : Unit}
    (h : exec (.invalidate key) i w = some (r, w')) (track : TrackAddress) :
    w'.queue track = if track = key then [] else w.queue track := by
  simp only [exec, Option.some.injEq, Prod.mk.injEq] at h
  rw [← h.2]
  exact World.queue_erase rfl

theorem exec_clearCaptures {r : Unit} (h : exec .clearCaptures i w = some (r, w'))
    (track : TrackAddress) : w'.queue track = [] := by
  simp only [exec, Option.some.injEq, Prod.mk.injEq] at h
  rw [← h.2]
  rfl

theorem exec_storeCapture {key : TrackAddress} {capture : TrackCapture}
    {evicted : Option TrackAddress}
    (h : exec (.storeCapture key capture) i w = some (evicted, w')) :
    evicted = World.evicted w.captures key i.victim ∧ w' = w.store key capture i.victim := by
  simp only [exec, Option.some.injEq, Prod.mk.injEq] at h
  exact ⟨h.1.symm, h.2.symm⟩

/-- Queues keep their order, and only a stored capture is added, at the back. -/
theorem exec_queue (h : exec o i w = some (r, w')) (track : TrackAddress) :
    (w'.queue track).Sublist (w.queue track ++ o.stored w track) := by
  by_cases hcaches : o.caches = true
  · cases o <;> simp only [Op.caches, Bool.false_eq_true] at hcaches
    · next key =>
      rw [(exec_retireFront h).2, World.queue_retire]
      simp only [Op.stored, List.append_nil]
      split
      · next htrack => rw [htrack]; exact List.tail_sublist _
      · exact List.Sublist.refl _
    · next key =>
      rw [exec_invalidate h]
      simp only [Op.stored, List.append_nil]
      split
      · exact List.nil_sublist _
      · exact List.Sublist.refl _
    · rw [exec_clearCaptures h]
      exact List.nil_sublist _
    · next key capture =>
      -- the track of the capture loses at most its oldest reading, another one may be evicted
      rw [(exec_storeCapture h).2, World.queue_store]
      simp only [Op.stored]
      by_cases htrack : track = key
      · rw [if_pos htrack, if_pos htrack, htrack]
        refine List.Sublist.append_right ?_ _
        split
        · exact List.tail_sublist _
        · exact List.Sublist.refl _
      · rw [if_neg htrack, if_neg htrack, List.append_nil]
        split
        · exact List.nil_sublist _
        · exact List.Sublist.refl _
  · rw [World.queue_eq_of_captures (exec_captures h (by simpa using hcaches))]
    exact List.sublist_append_left _ _

/-- A capture in a queue was there before, or the step has stored it. -/
theorem mem_of_exec {track : TrackAddress} {c : Cached} (h : exec o i w = some (r, w'))
    (hc : c ∈ w'.queue track) : c ∈ w.queue track ∨
      ∃ capture, o = .storeCapture track capture ∧ c = ⟨capture, w.lastRead⟩ := by
  have hmem := (exec_queue h track).subset hc
  rw [List.mem_append] at hmem
  refine hmem.imp_right fun hstored => ?_
  unfold Op.stored at hstored
  split at hstored
  · next key capture =>
    split at hstored
    · next htrack => exact ⟨capture, by rw [htrack], by simpa using hstored⟩
    · simp at hstored
  · simp at hstored

/--
How a capture can leave its queue. The last alternative is the worker dropping the oldest
reading of a full queue.
-/
theorem exec_leaves {track : TrackAddress} {c : Cached} (h : exec o i w = some (r, w'))
    (hc : c ∈ w.queue track) (hc' : c ∉ w'.queue track) :
    o = .retireFront track ∨ o = .invalidate track ∨ o = .clearCaptures ∨
      (∃ key capture, o = .storeCapture key capture ∧ key ≠ track) ∨
      ∃ capture, o = .storeCapture track capture ∧ CAPTURES_PER_TRACK ≤ (w.queue track).length := by
  by_cases hcaches : o.caches = true
  · cases o <;> simp only [Op.caches, Bool.false_eq_true] at hcaches
    · next key =>
      refine Or.inl ?_
      rw [(exec_retireFront h).2, World.queue_retire] at hc'
      by_cases htrack : track = key
      · rw [htrack]
      · rw [if_neg htrack] at hc'
        exact absurd hc hc'
    · next key =>
      refine Or.inr (Or.inl ?_)
      rw [exec_invalidate h] at hc'
      by_cases htrack : track = key
      · rw [htrack]
      · rw [if_neg htrack] at hc'
        exact absurd hc hc'
    · exact Or.inr (Or.inr (Or.inl rfl))
    · next key capture =>
      by_cases htrack : track = key
      · refine Or.inr (Or.inr (Or.inr (Or.inr ⟨capture, by rw [htrack], ?_⟩)))
        rw [(exec_storeCapture h).2, World.queue_store, if_pos htrack, ← htrack] at hc'
        -- with room in the queue nothing is pushed out of it
        by_contra hroom
        rw [if_neg hroom] at hc'
        exact hc' (List.mem_append_left _ hc)
      · exact Or.inr (Or.inr (Or.inr (Or.inl ⟨key, capture, rfl, fun h => htrack h.symm⟩)))
  · rw [World.queue_eq_of_captures (exec_captures h (by simpa using hcaches))] at hc'
    exact absurd hc hc'

theorem tracks_of_exec (h : exec o i w = some (r, w'))
    (hw : w.captures.keys.length ≤ MAX_CACHED_TRACKS) :
    w'.captures.keys.length ≤ MAX_CACHED_TRACKS := by
  by_cases hcaches : o.caches = true
  · cases o <;> simp only [Op.caches, Bool.false_eq_true] at hcaches
    · next key =>
      rw [(exec_retireFront h).2]
      unfold World.retire
      split
      · next captures hl =>
        have hmem : key ∈ w.captures := by
          rw [← AList.lookup_isSome, hl]
          rfl
        rw [World.length_keys_insert, if_pos hmem]
        exact hw
      · exact hw
    · next key =>
      simp only [exec, Option.some.injEq, Prod.mk.injEq] at h
      rw [← h.2]
      show (w.captures.erase key).keys.length ≤ _
      rw [AList.keys_erase]
      exact Nat.le_trans List.length_erase_le hw
    · simp only [exec, Option.some.injEq, Prod.mk.injEq] at h
      rw [← h.2]
      exact Nat.zero_le _
    · next key capture =>
      rw [(exec_storeCapture h).2]
      show (AList.insert key _ (World.evict w.captures key i.victim)).keys.length ≤ _
      rw [World.length_keys_insert]
      by_cases hkey : key ∈ w.captures
      · -- a track that is cached needs no room
        have hevict : World.evict w.captures key i.victim = w.captures := by
          unfold World.evict World.evicted
          rw [if_neg fun hc => hc.2 hkey]
        rw [hevict, if_pos hkey]
        exact hw
      · have hroom := World.length_keys_evict hw hkey i.victim
        split <;> omega
  · rw [exec_captures h (by simpa using hcaches)]
    exact hw

theorem readings_of_exec (h : exec o i w = some (r, w'))
    (hw : ∀ track, (w.queue track).length ≤ CAPTURES_PER_TRACK) (track : TrackAddress) :
    (w'.queue track).length ≤ CAPTURES_PER_TRACK := by
  by_cases hstored : o.stored w track = []
  · have hsub := (exec_queue h track).length_le
    rw [hstored, List.append_nil] at hsub
    exact Nat.le_trans hsub (hw track)
  · unfold Op.stored at hstored
    split at hstored
    · next key capture =>
      rw [(exec_storeCapture h).2, World.queue_store]
      have hkey := hw key
      have hdepth : CAPTURES_PER_TRACK = 2 := rfl
      split at hstored
      · next htrack =>
        rw [if_pos htrack, List.length_append, List.length_singleton]
        split
        · rw [List.length_tail]
          omega
        · omega
      · exact absurd rfl hstored
    · exact absurd rfl hstored

/-- **The cache stays bounded.** -/
theorem exec_bounded (h : exec o i w = some (r, w')) (hw : w.Bounded) : w'.Bounded :=
  ⟨tracks_of_exec h hw.tracks, readings_of_exec h hw.readings⟩

end Steps

end FluxBridge
