import UnitCheck.Trace.Ring
import Mathlib.Data.List.DropRight

/-!
# A ring keeps the latest events

Putting an event into a ring adds it behind what is kept and drops the oldest one if there are more
than slots (`Ring.snapshot_put`). So whatever is emitted, a ring keeps the latest of the events that
its level records, and dumps those of them that belong to a unit.
-/

namespace UnitCheck.Trace

open List

/-- The scope is one of those that have names. -/
def Scope.isDeclared (s : Scope) : Bool := s ∈ [run, unit, pass, node]

theorem Event.exists_line {e : Event} (h : e.scope.isDeclared = true) (format : Format) :
    ∃ l, e.line format = .ok l := by
  cases format with
  | objects => exact ⟨_, rfl⟩
  | text =>
    have hdepth : e.scope.depth ≠ 0 := by
      simp only [Scope.isDeclared, decide_eq_true_eq, mem_cons, not_mem_nil, or_false] at h
      obtain h | h | h | h := h <;> rw [h] <;> decide
    exact ⟨_, if_neg hdepth⟩

theorem Format.exists_lines (format : Format) {es : List Event}
    (h : ∀ e ∈ es, e.scope.isDeclared = true) :
    ∃ ls, format.lines es = .ok (Text.concat ls) ∧
      List.Forall₂ (fun e l => e.line format = .ok l) es ls := by
  suffices hmap : ∃ ls, es.mapM (fun e => e.line format) = .ok ls ∧
      List.Forall₂ (fun e l => e.line format = .ok l) es ls by
    obtain ⟨ls, hls, hlines⟩ := hmap
    exact ⟨ls, by rw [Format.lines, hls]; rfl, hlines⟩
  induction es with
  | nil => exact ⟨[], rfl, .nil⟩
  | cons e es ih =>
    obtain ⟨he, hes⟩ := forall_mem_cons.1 h
    obtain ⟨l, hl⟩ := Event.exists_line he format
    obtain ⟨ls, hls, hlines⟩ := ih hes
    exact ⟨l :: ls, by rw [mapM_cons, hl, hls]; rfl, .cons hl hlines⟩

/-- The events whose scopes a level records, with their numbers. -/
def recorded (level : Level) (es : List (Nat × Event)) : List Event :=
  (es.filter fun e => level.records e.2.scope).map fun (number, e) => { e with seq := number }

namespace Ring

variable (r : Ring) (e : Event)

theorem size_put : (r.put e).slots.size = r.slots.size := by
  unfold put
  dsimp only
  split <;> exact Array.size_set r.next_lt

theorem level_put : (r.put e).level = r.level := by
  unfold put
  dsimp only
  split <;> rfl

/-- What is put into a ring comes last, and the oldest event makes room for it. -/
theorem snapshot_put : (r.put e).snapshot = (r.snapshot ++ [e]).rtake r.slots.size := by
  obtain ⟨level, ⟨xs⟩, n, filled, hn⟩ := r
  obtain ⟨as, x, bs, rfl, rfl⟩ : ∃ as x bs, xs = as ++ x :: bs ∧ as.length = n :=
    ⟨xs.take n, xs[n], xs.drop (n + 1), by rw [← drop_eq_getElem_cons, take_append_drop],
      length_take_of_le hn.le⟩
  unfold put snapshot
  cases bs with
  | nil => cases filled <;> simp [List.rtake]
  | cons b bs =>
    have htake : (as ++ e :: b :: bs).take (as.length + 1) = as ++ [e] := by
      rw [take_append, take_of_length_le (Nat.le_succ _), Nat.add_sub_cancel_left]
      rfl
    have hone : bs.length + (as.length + 1) + 1 + 1 - (as.length + (bs.length + 1 + 1)) = 1 := by
      omega
    cases filled <;> simp [List.rtake, htake, hone]

theorem length_snapshot_le : r.snapshot.length ≤ r.slots.size := by
  have hlt := r.next_lt
  unfold snapshot
  cases r.filled with
  | false => exact length_take_le' ..
  | true =>
    rw [if_pos rfl, length_append, length_drop, length_take, Array.length_toList]
    omega

/-- Emits events with their numbers, one after the other. -/
def emitAll (es : List (Nat × Event)) : Ring := es.foldl (fun r e => r.emit e.1 e.2) r

theorem snapshot_emitAll (es : List (Nat × Event)) :
    (r.emitAll es).snapshot = (r.snapshot ++ recorded r.level es).rtake r.slots.size := by
  unfold emitAll recorded
  induction es generalizing r with
  | nil => simp [List.rtake, Nat.sub_eq_zero_of_le r.length_snapshot_le]
  | cons e es ih =>
    rw [foldl_cons, ih, emit, filter_cons]
    split
    next h =>
      rw [size_put, level_put, snapshot_put, map_cons]
      simp [rtake_eq_reverse_take_reverse, take_append, take_take]
    next => rfl

end Ring

/-- Whatever is emitted to a new ring, it keeps the latest of the events that its level records, as
many as it has slots and oldest first. It dumps those of them that belong to a unit, if there is
one, in this order. -/
theorem ring_keeps_latest (asked : Int) (level : Level) (es : List (Nat × Event))
    (hes : ∀ e ∈ es, e.2.scope.isDeclared = true) :
    let kept := (recorded level es).rtake (if 0 < asked then asked.toNat else 4096)
    let r := (Ring.ofCapacity asked level).emitAll es
    r.snapshot = kept ∧ ∀ unit format, ∃ ls, r.dump unit format = .ok (Text.concat ls) ∧
      List.Forall₂ (fun e l => e.line format = .ok l)
        (kept.filter fun e => unit.isEmpty || e.unit == unit) ls := by
  intro kept r
  have hkept : r.snapshot = kept := by
    rw [Ring.snapshot_emitAll]
    simp only [Ring.ofCapacity, Ring.snapshot, Array.size_replicate]
    rfl
  refine ⟨hkept, fun unit format => ?_⟩
  unfold Ring.dump
  rw [hkept]
  refine format.exists_lines fun e he => ?_
  obtain ⟨e', he', rfl⟩ := mem_map.1 (mem_of_mem_drop (mem_of_mem_filter he))
  exact hes e' (mem_of_mem_filter he')

/-- Three passes, and a node that is too fine to be recorded with them. -/
def passes : List (Nat × Event) :=
  [(1, .pass, "a"), (2, .pass, "b"), (3, .node, "b"), (4, .pass, "b")].map
    fun (number, scope, unit) =>
    (number, { (default : Event) with scope, unit })

theorem ring_keeps_latest_passes : (∀ e ∈ passes, e.2.scope.isDeclared = true) ∧
    (((Ring.ofCapacity 2 .detail).emitAll passes).snapshot = (recorded .detail passes).rtake 2) ∧
    ((recorded .detail passes).rtake 2).map Event.seq = [2, 4] :=
  have h : ∀ e ∈ passes, e.2.scope.isDeclared = true := by decide
  ⟨h, (ring_keeps_latest 2 .detail passes h).1, by decide⟩

end UnitCheck.Trace
