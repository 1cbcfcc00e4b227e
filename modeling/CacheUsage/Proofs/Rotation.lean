import CacheUsage.Proofs.Effects
import CacheUsage.Proofs.Replacement
import CacheUsage.Rows

namespace CacheUsage

theorem rotateRight_concat {α : Type} (xs : List α) (x : α) :
    (xs ++ [x]).rotateRight = x :: xs := by
  cases xs with
  | nil => rfl
  | cons y ys => simp [List.rotateRight]

theorem extract_append {α : Type} (left window right : List α) :
    (left ++ window ++ right).extract left.length (left.length + window.length) = window := by
  rw [List.extract_eq_take_drop, List.append_assoc, List.drop_left, Nat.add_sub_cancel_left,
    List.take_left]

namespace Rows

variable {α : Type} {row : Row α} {r : Rows} {tag : UInt64} {words : WordMap} {i start stop : Nat}

theorem turn_append (left xs right : List α) (x : α) :
    turn (left ++ (xs ++ [x]) ++ right) left.length (left.length + (xs ++ [x]).length) =
      left ++ (x :: xs) ++ right := by
  rw [turn, extract_append, rotateRight_concat, List.drop_left' List.length_append,
    List.append_assoc left, List.take_left]

theorem Row.read_eq {left right : List α} {x : α} (h : row.get r = left ++ x :: right)
    (hi : left.length = i) : row.read i r = .ok x r := by
  have hget : (row.get r)[i]? = some x := by
    rw [h, ← hi, List.getElem?_append_right (Nat.le_refl _), Nat.sub_self]
    rfl
  simp only [Row.read, hget]

theorem Row.write_eq {left right : List α} {x : α} (h : row.get r = left ++ x :: right)
    (hi : left.length = i) (y : α) :
    row.write i y r = .ok () (row.put (left ++ y :: right) r) := by
  have hlt : i < (row.get r).length := by
    rw [h, ← hi, List.length_append, List.length_cons]
    omega
  have hset : (row.get r).set i y = left ++ y :: right := by
    rw [h, ← hi, List.set_append_right _ _ (Nat.le_refl _), Nat.sub_self]
    rfl
  rw [Row.write, if_pos hlt, hset]

theorem Row.rotate_eq {left right xs : List α} {x : α}
    (h : row.get r = left ++ (xs ++ [x]) ++ right) (hstart : left.length = start)
    (hstop : start + (xs ++ [x]).length = stop) :
    row.rotate start stop r = .ok () (row.put (left ++ (x :: xs) ++ right) r) := by
  have hinside : start < stop ∧ stop ≤ (row.get r).length := by
    rw [h, ← hstop, ← hstart]
    simp
  rw [Row.rotate, if_pos hinside, h, ← hstop, ← hstart, turn_append]

def holding (r : Rows) (slots : List Slot) : Rows :=
  { r with tags := slots.map Slot.tag, used := slots.map Slot.used }

theorem recountSlot_bind_pure {before after : WordMap} (hit : Bool) :
    (recountSlot before after >>= fun _ => pure hit) r =
      match Cache.updatedTotal r.total before after with
      | .ok total => .ok hit { r with total }
      | .error fault => .error fault r := by
  change EStateM.bind _ _ r = _
  rw [EStateM.bind, recountSlot]
  cases Cache.updatedTotal r.total before after <;> rfl

section Window

variable {left right before after slots : List Slot} {slot : Slot}

theorem get_tagRow_holding (r : Rows) (slots : List Slot) :
    tagRow.get (r.holding slots) = slots.map Slot.tag := rfl

theorem get_usedRow_holding (r : Rows) (slots : List Slot) :
    usedRow.get (r.holding slots) = slots.map Slot.used := rfl

theorem Row.read_holding {f : Slot → α} (hrow : ∀ slots, row.get (r.holding slots) = slots.map f)
    (hi : left.length = i) : row.read i (r.holding (left ++ slot :: right)) =
      .ok (f slot) (r.holding (left ++ slot :: right)) := by
  have hget := hrow (left ++ slot :: right)
  rw [List.map_append, List.map_cons] at hget
  exact Row.read_eq hget ((List.length_map f).trans hi)

theorem Row.write_holding {f : Slot → α} (hrow : ∀ slots, row.get (r.holding slots) = slots.map f)
    (hi : left.length = i) (x : α) : row.write i x (r.holding (left ++ slot :: right)) =
      .ok () (row.put (left.map f ++ x :: right.map f) (r.holding (left ++ slot :: right))) := by
  have hget := hrow (left ++ slot :: right)
  rw [List.map_append, List.map_cons] at hget
  exact Row.write_eq hget ((List.length_map f).trans hi) x

theorem write_tagRow_holding (hi : left.length = i) (tag : UInt64) :
    tagRow.write i tag (r.holding (left ++ slot :: right)) =
      .ok () (r.holding (left ++ ⟨tag, slot.used⟩ :: right)) := by
  rw [Row.write_holding (get_tagRow_holding r) hi]
  simp [tagRow, holding]

theorem write_usedRow_holding (hi : left.length = i) (words : WordMap) :
    usedRow.write i words (r.holding (left ++ slot :: right)) =
      .ok () (r.holding (left ++ ⟨slot.tag, words⟩ :: right)) := by
  rw [Row.write_holding (get_usedRow_holding r) hi]
  simp [usedRow, holding]

/-- Tags and words are turned alike, so that each tag keeps its words. -/
theorem rotate_holding {β : Type} (hstart : left.length = start)
    (hstop : start + (slots ++ [slot]).length = stop) (next : Unit → RowsM β) :
    (tagRow.rotate start stop >>= fun _ => usedRow.rotate start stop >>= next)
        (r.holding (left ++ (slots ++ [slot]) ++ right)) =
      next () (r.holding (left ++ (slot :: slots) ++ right)) := by
  have htags : tagRow.get (r.holding (left ++ (slots ++ [slot]) ++ right)) =
      left.map Slot.tag ++ (slots.map Slot.tag ++ [slot.tag]) ++ right.map Slot.tag := by
    simp [tagRow, holding]
  have hused (tags : List UInt64) :
      usedRow.get (tagRow.put tags (r.holding (left ++ (slots ++ [slot]) ++ right))) =
        left.map Slot.used ++ (slots.map Slot.used ++ [slot.used]) ++ right.map Slot.used := by
    simp [tagRow, usedRow, holding]
  rw [bind_eq_of_ok (Row.rotate_eq htags (by simpa using hstart) (by simpa using hstop)),
    bind_eq_of_ok (Row.rotate_eq (hused _) (by simpa using hstart) (by simpa using hstop))]
  simp [tagRow, usedRow, holding]

theorem mark_holding (hi : left.length = i) (old words : WordMap) :
    mark i old words (r.holding (left ++ slot :: right)) =
      recountSlot old (old ||| words) (r.holding (left ++ ⟨slot.tag, old ||| words⟩ :: right)) := by
  rw [mark, bind_eq_of_ok (write_usedRow_holding hi _),
    bind_eq_of_ok (Row.read_holding (get_usedRow_holding r) hi)]

theorem markFront_holding (hi : left.length = i) :
    markFront i words (r.holding (left ++ slot :: right)) =
      recountSlot slot.used (slot.used ||| words)
        (r.holding (left ++ ⟨slot.tag, slot.used ||| words⟩ :: right)) := by
  rw [markFront, bind_eq_of_ok (Row.read_holding (get_usedRow_holding r) hi), mark_holding hi]

theorem bringForward_holding (hi : left.length = i) :
    bringForward i before.length words (r.holding (left ++ (before ++ slot :: after) ++ right)) =
      recountSlot slot.used (slot.used ||| words)
        (r.holding (left ++ (⟨slot.tag, slot.used ||| words⟩ :: before ++ after) ++ right)) := by
  -- The row is cut where the slot stands, to read it, and behind the slot, to turn what ends there.
  have hread : left ++ (before ++ slot :: after) ++ right =
      (left ++ before) ++ slot :: (after ++ right) := by simp
  have hturn : (left ++ before) ++ slot :: (after ++ right) =
      left ++ (before ++ [slot]) ++ (after ++ right) := by simp
  have hfar : (left ++ before).length = i + before.length := by rw [List.length_append, hi]
  rw [bringForward, hread, bind_eq_of_ok (Row.read_holding (get_usedRow_holding r) hfar), hturn,
    rotate_holding hi (by simp [Nat.add_assoc]), List.append_assoc left, List.cons_append,
    mark_holding hi]
  simp

theorem install_holding (hi : left.length = start)
    (hstop : start + (slots ++ [slot]).length = stop) :
    install start stop tag words (r.holding (left ++ (slots ++ [slot]) ++ right)) =
      recountSlot slot.used words (r.holding (left ++ (⟨tag, words⟩ :: slots) ++ right)) := by
  have hread : left ++ (slots ++ [slot]) ++ right = (left ++ slots) ++ slot :: right := by simp
  have hlast : (left ++ slots).length = stop - 1 := by
    rw [← hstop, ← hi]
    simp
  rw [install, hread, bind_eq_of_ok (Row.read_holding (get_usedRow_holding r) hlast), ← hread,
    rotate_holding hi hstop, List.append_assoc, List.cons_append,
    bind_eq_of_ok (write_tagRow_holding hi tag), bind_eq_of_ok (write_usedRow_holding hi words)]
  simp

theorem wayOf_holding {front : Slot} (hi : left.length = start)
    (hstop : start + (front :: slots).length = stop) :
    wayOf tag start stop (r.holding (left ++ (front :: slots) ++ right)) =
      ((slots.findIdx? fun slot => slot.tag == tag).map (· + 1)) := by
  have hrow : (r.holding (left ++ (front :: slots) ++ right)).tags =
      (left ++ [front]).map Slot.tag ++ slots.map Slot.tag ++ right.map Slot.tag := by
    simp [holding]
  have hfirst : start + 1 = ((left ++ [front]).map Slot.tag).length := by simp [hi]
  have hlast : stop = ((left ++ [front]).map Slot.tag).length + (slots.map Slot.tag).length := by
    rw [← hstop, ← hi]
    simp only [List.length_map, List.length_append, List.length_cons, List.length_nil]
    omega
  rw [wayOf, hrow, hfirst, hlast, extract_append, List.findIdx?_map]
  rfl

theorem visit_of_front (hi : left.length = start) (hfront : slot.tag = tag) :
    visit start stop tag words (r.holding (left ++ slot :: right)) =
      (markFront start words >>= fun _ => pure true) (r.holding (left ++ slot :: right)) := by
  rw [visit, bind_eq_of_ok (Row.read_holding (get_tagRow_holding r) hi), if_pos hfront]

theorem visit_of_ne (hi : left.length = start) (hfront : slot.tag ≠ tag) :
    visit start stop tag words (r.holding (left ++ (slot :: after) ++ right)) =
      match wayOf tag start stop (r.holding (left ++ (slot :: after) ++ right)) with
      | some way => (bringForward start way words >>= fun _ => pure true)
          (r.holding (left ++ (slot :: after) ++ right))
      | none => (install start stop tag words >>= fun _ => pure false)
          (r.holding (left ++ (slot :: after) ++ right)) := by
  have hget (s : Rows) : (get : RowsM Rows) s = .ok s s := rfl
  rw [List.append_assoc, List.cons_append, visit,
    bind_eq_of_ok (Row.read_holding (get_tagRow_holding r) hi), if_neg hfront,
    bind_eq_of_ok (hget _)]
  cases wayOf tag start stop (r.holding (left ++ slot :: (after ++ right))) <;> rfl

theorem visit_front (hi : left.length = start) :
    visit start stop slot.tag words (r.holding (left ++ (slot :: after) ++ right)) =
      (recountSlot slot.used (slot.used ||| words) >>= fun _ => pure true)
        (r.holding (left ++ (⟨slot.tag, slot.used ||| words⟩ :: after) ++ right)) := by
  rw [List.append_assoc, List.cons_append, visit_of_front hi rfl,
    bind_congr_run (markFront_holding hi), List.append_assoc, List.cons_append]

theorem visit_behind {front : Slot} (hi : left.length = start)
    (hstop : start + (front :: (before ++ slot :: after)).length = stop)
    (hfront : front.tag ≠ slot.tag) (hbefore : ∀ other ∈ before, other.tag ≠ slot.tag) :
    visit start stop slot.tag words
        (r.holding (left ++ (front :: (before ++ slot :: after)) ++ right)) =
      (recountSlot slot.used (slot.used ||| words) >>= fun _ => pure true)
        (r.holding (left ++ (⟨slot.tag, slot.used ||| words⟩ :: front :: (before ++ after)) ++
          right)) := by
  -- The search starts behind the front, so what it finds is one place further back.
  have hfind : (before ++ slot :: after).findIdx? (fun other => other.tag == slot.tag) =
      some before.length := by
    rw [List.findIdx?_append, List.findIdx?_eq_none_iff.mpr (by simpa using hbefore)]
    simp [List.findIdx?_cons]
  rw [visit_of_ne hi hfront, wayOf_holding hi hstop, hfind]
  have hbring : bringForward start (front :: before).length words
      (r.holding (left ++ (front :: before ++ slot :: after) ++ right)) = _ :=
    bringForward_holding hi
  exact bind_congr_run hbring

theorem visit_miss (hi : left.length = start)
    (hstop : start + (slots ++ [slot]).length = stop)
    (hnone : ∀ other ∈ slots ++ [slot], other.tag ≠ tag) :
    visit start stop tag words (r.holding (left ++ (slots ++ [slot]) ++ right)) =
      (recountSlot slot.used words >>= fun _ => pure false)
        (r.holding (left ++ (⟨tag, words⟩ :: slots) ++ right)) := by
  have hinstall : install start stop tag words
      (r.holding (left ++ (slots ++ [slot]) ++ right)) = _ := install_holding hi hstop
  obtain ⟨front, rest, hcons⟩ := List.exists_cons_of_ne_nil (List.concat_ne_nil slot slots)
  rw [hcons] at hstop hnone hinstall ⊢
  obtain ⟨hfront, hrest⟩ := List.forall_mem_cons.mp hnone
  rw [visit_of_ne hi hfront, wayOf_holding hi hstop,
    List.findIdx?_eq_none_iff.mpr (by simpa using hrest)]
  exact bind_congr_run hinstall

/-- In its part of the rows a visit does what it does to the slots of a set. -/
theorem visit_holding (hi : left.length = start) (hstop : start + slots.length = stop)
    (hne : slots ≠ []) :
    visit start stop tag words (r.holding (left ++ slots ++ right)) =
      (recountSlot (Slot.visit tag words slots).before (Slot.visit tag words slots).after >>=
        fun _ => pure (Slot.visit tag words slots).hit)
      (r.holding (left ++ (Slot.visit tag words slots).slots ++ right)) := by
  obtain ⟨before, slot, after, rfl, rfl, hbefore, hslot⟩ | ⟨kept, last, rfl, hnone, hslot⟩ :=
    Slot.visit_cases tag words hne
  · rw [hslot]
    cases before with
    | nil => exact visit_front hi
    | cons front before =>
      obtain ⟨hfront, hbetween⟩ := List.forall_mem_cons.mp hbefore
      exact visit_behind hi hstop hfront hbetween
  · rw [hslot]
    exact visit_miss hi hstop hnone

end Window

end Rows

end CacheUsage
