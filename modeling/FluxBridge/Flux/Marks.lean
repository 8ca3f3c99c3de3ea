import Mathlib.Data.List.Basic

/-!
# Lists cut at their marks

Some items of a list are marks. What lies from the first mark up to the second one is kept.

* `Markless`, `Opened`, `Closed` — a list that is read on, item by item
* `Opened.count`, `Closed.count` — how many marks it has
-/

namespace Marks

variable {α : Type} {marked : α → Bool} {items kept : List α} {item : α}

/-- There is no mark. -/
def Markless (marked : α → Bool) (items : List α) : Prop := ∀ item ∈ items, marked item = false

/-- There is one mark, and `kept` is what begins with it. -/
def Opened (marked : α → Bool) (items kept : List α) : Prop :=
  ∃ front first segment, items = front ++ first :: segment ∧ kept = first :: segment ∧
    Markless marked front ∧ marked first = true ∧ Markless marked segment

/-- The second mark is the last item, and `kept` lies from the first one up to it. -/
def Closed (marked : α → Bool) (items kept : List α) : Prop :=
  ∃ front second, items = front ++ [second] ∧ Opened marked front kept ∧ marked second = true

theorem markless_nil : Markless marked [] := nofun

theorem markless_cons : Markless marked (item :: items) ↔
    marked item = false ∧ Markless marked items := List.forall_mem_cons

theorem markless_append {left right : List α} : Markless marked (left ++ right) ↔
    Markless marked left ∧ Markless marked right := List.forall_mem_append

theorem Markless.snoc (h : Markless marked items) (hitem : marked item = false) :
    Markless marked (items ++ [item]) :=
  markless_append.mpr ⟨h, markless_cons.mpr ⟨hitem, markless_nil⟩⟩

/-- The first mark. -/
theorem Markless.opens (h : Markless marked items) (hitem : marked item = true) :
    Opened marked (items ++ [item]) [item] :=
  ⟨items, item, [], rfl, rfl, h, hitem, markless_nil⟩

theorem Opened.snoc (h : Opened marked items kept) (hitem : marked item = false) :
    Opened marked (items ++ [item]) (kept ++ [item]) := by
  obtain ⟨front, first, segment, rfl, rfl, hfront, hfirst, hsegment⟩ := h
  exact ⟨front, first, segment ++ [item], List.append_assoc _ _ _, rfl, hfront, hfirst,
    hsegment.snoc hitem⟩

/-- The second mark. -/
theorem Opened.closes (h : Opened marked items kept) (hitem : marked item = true) :
    Closed marked (items ++ [item]) kept :=
  ⟨items, item, rfl, h, hitem⟩

theorem Markless.count (h : Markless marked items) : items.countP marked = 0 :=
  List.countP_eq_zero.mpr fun item hitem => by
    rw [h item hitem]
    exact Bool.false_ne_true

theorem Opened.count (h : Opened marked items kept) : items.countP marked = 1 := by
  obtain ⟨front, first, segment, rfl, -, hfront, hfirst, hsegment⟩ := h
  rw [List.countP_append, hfront.count, List.countP_cons_of_pos hfirst, hsegment.count]

theorem opened_of_count (h : items.countP marked = 1) : ∃ kept, Opened marked items kept := by
  induction items with
  | nil => cases h
  | cons item items ih =>
    cases hitem : marked item with
    | true =>
      rw [List.countP_cons_of_pos hitem] at h
      refine ⟨_, [], item, items, rfl, rfl, markless_nil, hitem, fun other hother => ?_⟩
      exact Bool.eq_false_iff.mpr (List.countP_eq_zero.mp (Nat.succ.inj h) other hother)
    | false =>
      rw [List.countP_cons_of_neg (Bool.eq_false_iff.mp hitem)] at h
      obtain ⟨kept, front, first, segment, rfl, rfl, hfront, hfirst, hsegment⟩ := ih h
      exact ⟨_, item :: front, first, segment, rfl, rfl, markless_cons.mpr ⟨hitem, hfront⟩, hfirst,
        hsegment⟩

theorem Closed.count (h : Closed marked items kept) : items.countP marked = 2 := by
  obtain ⟨front, second, rfl, hopened, hsecond⟩ := h
  rw [List.countP_append, hopened.count, List.countP_cons_of_pos hsecond]
  rfl

/-- A list that begins with two marks has what it begins with, and a list of at most one does not
begin that way: whatever stands behind the second mark came with it. -/
theorem Closed.length_lt {read unread before last : List α} (h : Closed marked read kept)
    (hone : before.countP marked ≤ 1) (heq : before ++ last = read ++ unread) :
    unread.length < last.length := by
  by_contra hle
  have hprefix : read <+: before := by
    refine List.prefix_of_prefix_length_le ⟨unread, heq.symm⟩ (List.prefix_append before last) ?_
    have hlength := congrArg List.length heq
    rw [List.length_append, List.length_append] at hlength
    omega
  have hcount := hprefix.sublist.countP_le (p := marked)
  rw [h.count] at hcount
  omega

end Marks
